import Marfs.Recovery.FinfoPrinted

/-!
# Parsing a printed header

A header of `recovery_headertostr` is parsed back, whatever follows it in the object, as long as its
client tag has no separator and its stream ID does not have the tail in it (`parseRecovHeader_printed`).
-/

namespace Marfs.Recovery

open Cstring Machine List

/-! ## Words and versions -/

variable {rest streamid text : List Char} {bufsize : Nat} {c : Char}

theorem headerWord_append {word : List Char} (hle : word.length ≤ bufsize) (hlt : bufsize < SizeT.modulus) :
    headerWord word (word ++ rest) bufsize = .done (rest, bufsize - word.length) := by
  have hdrop : (word ++ rest).drop word.length = rest := drop_left
  unfold headerWord
  rw [decide_eq_true hle, Walk.check_true, Walk.done_bind, strncmpIn_append, Walk.done_bind,
    Walk.check_true, Walk.done_bind, hdrop, SizeT.sub_of_le hle hlt]
  rfl

theorem length_padded (w n : Nat) : w ≤ (padded w n).length := by
  unfold padded
  rw [length_append, length_replicate]
  omega

theorem headerVersion_padded {stop : Char} (hstop : stop.isDigit = false) {n : Nat} (hn : n ≤ 2 ^ 32 - 1)
    (hle : (padded uintDigits n).length + 1 ≤ bufsize) (hlt : bufsize < SizeT.modulus) :
    headerVersion stop (padded uintDigits n ++ stop :: rest) bufsize =
      .done (n, rest, bufsize - ((padded uintDigits n).length + 1)) := by
  have hwidth := length_padded uintDigits n
  have hmov : (padded uintDigits n ++ stop :: rest).length - (stop :: rest).length + 1 =
      (padded uintDigits n).length + 1 := by
    rw [length_append]
    omega
  have hmax : n ≤ ullongMax := hn.trans (by decide)
  have hbyte : byteAt (stop :: rest) = .done stop := rfl
  have hroom : uintDigits + 1 ≤ bufsize := by omega
  have hcheck : (decide (stop = stop) && decide (n ≤ 2 ^ 32 - 1)) = true := by
    rw [decide_eq_true rfl, decide_eq_true hn]
    rfl
  unfold headerVersion
  rw [decide_eq_true hroom, Walk.check_true, Walk.done_bind,
    strtoullIn_digits (padded_digits hmax) hstop, Walk.done_bind]
  dsimp only
  rw [hbyte, Walk.done_bind, hcheck, Walk.check_true, Walk.done_bind, hmov, SizeT.sub_of_le hle hlt]
  rfl

/-! ## The strings -/

/-- The loop over the client tag stops at the separator. -/
theorem ctagEnd_append {ctag : List Char} (hnul : '\x00' ∉ ctag) (hbar : '|' ∉ ctag)
    (rest : List Char) : ∀ {bufsize : Nat}, ctag.length ≤ bufsize →
      ctagEnd (ctag ++ '|' :: rest) bufsize = .done ('|' :: rest, bufsize - ctag.length) := by
  induction ctag with
  | nil => exact fun _ => rfl
  | cons c ctag ih =>
    intro bufsize hle
    rw [mem_cons, not_or] at hnul hbar
    rw [length_cons] at hle ⊢
    have hgo : (decide (c = '\x00') || decide (c = '|') || decide (bufsize = 0)) = false := by
      rw [decide_eq_false (Ne.symm hnul.1), decide_eq_false (Ne.symm hbar.1),
        decide_eq_false (by omega)]
      rfl
    rw [cons_append, ctagEnd, hgo, if_neg Bool.false_ne_true, ih hnul.2 hbar.2 (by omega),
      Nat.sub_sub, Nat.add_comm 1]

theorem msgTail_not_prefix (htail : ¬ msgTail <:+: c :: streamid) (rest : List Char) :
    ¬ msgTail <+: c :: (streamid ++ (msgTail ++ rest)) := by
  rintro ⟨text, htext⟩
  obtain ⟨rfl, hnext⟩ := List.cons.inj htext
  cases streamid with
  | nil => cases (List.cons.inj hnext).1
  | cons d streamid =>
    obtain ⟨rfl, -⟩ := List.cons.inj hnext
    exact htail (List.IsPrefix.isInfix ⟨streamid, rfl⟩)

theorem streamidEnd_append (hnul : '\x00' ∉ streamid) (htail : ¬ msgTail <:+: streamid) (rest : List Char) :
    ∀ {bufsize : Nat},
      streamid.length + msgTail.length ≤ bufsize →
      streamidEnd (streamid ++ (msgTail ++ rest)) bufsize =
        .done (msgTail ++ rest, bufsize - streamid.length) := by
  have hlen : msgTail.length = 2 := rfl
  induction streamid with
  | nil =>
    intro bufsize hle
    rw [length_nil] at hle
    have hfound : strncmpIn (')' :: ('\n' :: rest)) msgTail = .done true := strncmpIn_append msgTail rest
    have hgo : (decide (')' = '\x00') || decide (bufsize = 0)) = false := by
      rw [decide_eq_false (by omega : ¬ bufsize = 0)]
      rfl
    change streamidEnd (')' :: ('\n' :: rest)) bufsize = .done (')' :: ('\n' :: rest), bufsize - 0)
    rw [streamidEnd, hgo, if_neg Bool.false_ne_true, if_pos (show some ')' = msgTail.head? from rfl),
      if_neg (by omega), hfound, Walk.done_bind]
    rfl
  | cons c streamid ih =>
    intro bufsize hle
    rw [mem_cons, not_or] at hnul
    rw [length_cons] at hle ⊢
    have hgo : (decide (c = '\x00') || decide (bufsize = 0)) = false := by
      rw [decide_eq_false (Ne.symm hnul.1), decide_eq_false (by omega)]
      rfl
    have hbeyond : ¬ msgTail <:+: streamid := fun h => htail (h.trans (suffix_cons c _).isInfix)
    have hnext : streamidEnd (streamid ++ (msgTail ++ rest)) (bufsize - 1) =
        .done (msgTail ++ rest, bufsize - (streamid.length + 1)) := by
      rw [ih hnul.2 hbeyond (by omega), Nat.sub_sub, Nat.add_comm 1]
    rw [cons_append, streamidEnd, hgo, if_neg Bool.false_ne_true]
    split
    · have hlong : msgTail.length ≤ (c :: (streamid ++ (msgTail ++ rest))).length := by
        rw [length_cons, length_append, length_append]
        omega
      have hword : strncmpIn (c :: (streamid ++ (msgTail ++ rest))) msgTail = .done false := by
        rw [strncmpIn_eq msgTail hlong,
          Bool.eq_false_iff.2 fun h => msgTail_not_prefix htail rest (List.isPrefixOf_iff_prefix.1 h)]
      rw [if_neg (by omega), hword, Walk.done_bind, if_neg Bool.false_ne_true, hnext]
    · exact hnext

theorem headerString_append (hnul : '\x00' ∉ text) (hlen : text.length ≤ intMax) (hc : c ≠ '\x00')
    (hpos : bufsize ≠ 0) : headerString (text ++ c :: rest) (c :: rest) bufsize = .done text := by
  have hmov : (text ++ c :: rest).length - (c :: rest).length = text.length := by
    rw [length_append]
    omega
  have htake : (text ++ c :: rest).take text.length = text := take_left
  have hbyte : byteAt (c :: rest) = .done c := rfl
  have hcheck : (decide (bufsize ≠ 0) && decide (c ≠ '\x00')) = true := by
    rw [decide_eq_true hpos, decide_eq_true hc]
    rfl
  unfold headerString
  rw [hbyte, Walk.done_bind, hcheck, Walk.check_true, Walk.done_bind, hmov]
  dsimp only
  rw [decide_eq_true hlen, Walk.check_true, Walk.done_bind, printedLength_path hnul hlen,
    Walk.done_bind, decide_eq_true rfl, Walk.check_true, Walk.done_bind, htake]
  rfl

/-! ## The header -/

structure RecoveryHeader.Printable (header : RecoveryHeader) : Prop where
  majorversion : header.majorversion ≤ 2 ^ 32 - 1
  minorversion : header.minorversion ≤ 2 ^ 32 - 1
  ctag : '\x00' ∉ header.ctag
  streamid : '\x00' ∉ header.streamid
  length : (recoveryHeadertostr header).length ≤ intMax

theorem recoveryHeadertostr_append (header : RecoveryHeader) (content : List Char) :
    recoveryHeadertostr header ++ content =
      msgHead ++ (headerType ++ (padded uintDigits header.majorversion ++
        '.' :: (padded uintDigits header.minorversion ++
          '|' :: (header.ctag ++ '|' :: (header.streamid ++ (msgTail ++ content)))))) := by
  unfold recoveryHeadertostr
  simp only [append_assoc, cons_append, nil_append]

theorem recoveryHeadertostr_length (header : RecoveryHeader) :
    (recoveryHeadertostr header).length = msgHead.length + headerType.length +
      (padded uintDigits header.majorversion).length + (padded uintDigits header.minorversion).length +
      header.ctag.length + header.streamid.length + msgTail.length + 3 := by
  unfold recoveryHeadertostr
  simp only [length_append, length_cons, length_nil]
  omega

theorem parseRecovHeader_text {header : RecoveryHeader} (h : header.Printable)
    (hctag : '|' ∉ header.ctag) (hsid : ¬ msgTail <:+: header.streamid)
    {content : List Char} (htext : text = recoveryHeadertostr header ++ content)
    (hlt : text.length < SizeT.modulus) : parseRecovHeader text = .done (header, content) := by
  have htail : msgTail.length = 2 := rfl
  have hdrop : (msgTail ++ content).drop msgTail.length = content := drop_left
  have hlen := h.length
  have hlength := recoveryHeadertostr_length header
  have hsize : (recoveryHeadertostr header).length ≤ text.length := by
    rw [htext, length_append]
    exact Nat.le_add_right _ _
  rw [recoveryHeadertostr_append] at htext
  unfold parseRecovHeader
  -- only the lengths matter from here on
  generalize text.length = bufsize at hlt hsize ⊢
  generalize (recoveryHeadertostr header).length = length at hlen hlength hsize
  rw [htext, headerWord_append (by omega) hlt, Walk.done_bind]
  dsimp only
  rw [headerWord_append (by omega) (by omega), Walk.done_bind]
  dsimp only
  rw [headerVersion_padded (by decide) h.majorversion (by omega) (by omega), Walk.done_bind]
  dsimp only
  rw [headerVersion_padded (by decide) h.minorversion (by omega) (by omega), Walk.done_bind]
  dsimp only
  rw [ctagEnd_append h.ctag hctag _ (by omega), Walk.done_bind]
  dsimp only
  rw [headerString_append h.ctag (by omega) (by decide) (by omega), Walk.done_bind, tail_cons,
    SizeT.sub_of_le (by omega) (by omega), streamidEnd_append h.streamid hsid content (by omega),
    Walk.done_bind]
  dsimp only
  have hstring : headerString (header.streamid ++ ')' :: ('\n' :: content)) (')' :: ('\n' :: content))
      (bufsize - msgHead.length - headerType.length -
        ((padded uintDigits header.majorversion).length + 1) -
        ((padded uintDigits header.minorversion).length + 1) - header.ctag.length - 1 -
        header.streamid.length) = .done header.streamid :=
    headerString_append h.streamid (by omega) (by decide) (by omega)
  rw [show msgTail ++ content = ')' :: ('\n' :: content) from rfl, hstring, Walk.done_bind]
  rfl

end Marfs.Recovery
