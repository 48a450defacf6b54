import Marfs.Datastream.Stream

/-!
# The chunks of a file

`datastream_chunkbounds` cuts a file where its data objects end, so that the chunks can be read one
by one.  The first object of a file may begin with data of other files, and the last one may go on
behind the end of the file; between them a chunk is a whole object.
-/

namespace Marfs.Datastream

open Machine Tagging

/-! ## Where the bytes of a file are -/

/-- The data an object holds, as `gettargets` computes it. -/
def Stream.dataperobj (stream : Stream) : Nat :=
  SizeT.sub stream.cur.ftag.objsize (stream.cur.ftag.recoverybytes + stream.recoveryheaderlen)

/-- The data of earlier files in the first object of the file, as `gettargets` computes it. -/
def Stream.minoffset (stream : Stream) : Nat :=
  SizeT.sub stream.cur.ftag.offset stream.recoveryheaderlen

def Stream.objectOf (stream : Stream) (i : Nat) : Nat :=
  stream.cur.ftag.objno + (i + stream.minoffset) / stream.dataperobj

/-- How many objects hold bytes of the file. -/
def Stream.spanned (stream : Stream) : Nat :=
  (stream.cur.ftag.availbytes + stream.minoffset + stream.dataperobj - 1) / stream.dataperobj

namespace Sys

/-! ## `datastream_chunkbounds` -/

/-- The offset and the size of a chunk, from the start of the file, whose `offset` does not count
recovery info. -/
def chunkOf (streampos : Position) (chunknum : Int) : Option (Nat × Nat) :=
  let chunksize := SizeT.sub streampos.dataperobj streampos.offset
  let tgtoff := if chunknum > 0
    then SizeT.wrap (chunksize + (chunknum - 1).toNat * streampos.dataperobj) else 0
  if tgtoff > streampos.dataremaining then none
  else if SizeT.wrap (tgtoff + chunksize) > streampos.dataremaining
  then some (tgtoff, streampos.dataremaining - tgtoff)
  else some (tgtoff, chunksize)

def datastreamChunkbounds (chunknum : Int) : Op Sys (Nat × Nat) := do
  let s ← Op.get
  let streampos ← gettargets 0 .set
  Op.ofOption (chunkOf
    { streampos with offset := SizeT.sub streampos.offset s.stream.recoveryheaderlen } chunknum)

def intMax : Nat := 2 ^ 31 - 1

/-- Chunk `k` is given as the bytes from `start` to `stop`, and these are the bytes of the file in
the object `k` behind its first one. -/
structure IsChunk (s : Sys) (k start stop : Nat) : Prop where
  bounds : (datastreamChunkbounds k s).1 = some (start, stop - start)
  nonempty : start < stop
  bytes : ∀ i, (start ≤ i ∧ i < stop) ↔
    (i < s.stream.cur.ftag.availbytes ∧ s.stream.objectOf i = s.stream.cur.ftag.objno + k)

/-- The chunks from number zero on follow each other from the first byte of the file to its last
one, and the first number past them is rejected.  `gettargets` divides by the data an object
holds. -/
structure ChunksTile (s : Sys) : Prop where
  divides : s.stream.dataperobj ≠ 0
  tile : ∃ (n : Nat) (bound : Nat → Nat), n ≤ intMax ∧
    bound 0 = 0 ∧ bound n = s.stream.cur.ftag.availbytes ∧
    (∀ k, k < n → IsChunk s k (bound k) (bound (k + 1))) ∧
    (datastreamChunkbounds n s).1 = none

end Sys

/-- The file has data and starts inside its first object, no more than the data that object has left
lies in the objects behind it unless the object is the file's alone, and the file ends before its
last object does. -/
structure Stream.EvenChunks (stream : Stream) : Prop where
  nonempty : 0 < stream.cur.ftag.availbytes
  inside : stream.minoffset < stream.dataperobj
  short : stream.minoffset = 0 ∨
    stream.cur.ftag.availbytes ≤ 2 * (stream.dataperobj - stream.minoffset)
  numbered : stream.spanned ≤ Sys.intMax
  ends : stream.cur.ftag.availbytes <
    SizeT.wrap (stream.spanned * stream.dataperobj - stream.minoffset)

namespace Sys

variable {s : Sys}

theorem sub_lt_modulus (a b : Nat) : SizeT.sub a b < SizeT.modulus :=
  Nat.mod_lt _ SizeT.modulus_pos

theorem dataperobj_lt (stream : Stream) : stream.dataperobj < SizeT.modulus :=
  sub_lt_modulus _ _

/-- The start of the file is always found. -/
theorem gettargets_zero : (gettargets 0 .set s).1 =
    some (s.stream.position s.stream.dataperobj s.stream.minoffset 0) := by
  have hmax : (0 < offMax) = True := by simp [offMax]
  simp only [gettargets, space, fromStart, Op.get, Op.modify, Op.check, bind, pure, hmax,
    Nat.zero_le, decide_true, Bool.true_or]
  rfl

theorem chunkbounds_eq (k : Int) : (datastreamChunkbounds k s).1 =
    chunkOf { s.stream.position s.stream.dataperobj s.stream.minoffset 0 with
      offset := SizeT.sub (s.stream.position s.stream.dataperobj s.stream.minoffset 0).offset
        s.stream.recoveryheaderlen } k := by
  have hst := gettargets_zero (s := s)
  rcases hrun : gettargets 0 .set s with ⟨targets, s'⟩
  rw [hrun] at hst
  cases hst
  simp only [datastreamChunkbounds, Op.get, bind, hrun, Op.ofOption]

variable {stream : Stream} {k A D m K n : Nat} {bound : Nat → Nat}

/-- A file that starts inside its first object keeps its offset there, and all its data lies behind
its start. -/
theorem position_zero (hin : stream.minoffset < stream.dataperobj) :
    SizeT.sub (stream.position stream.dataperobj stream.minoffset 0).offset
        stream.recoveryheaderlen = stream.minoffset ∧
      (stream.position stream.dataperobj stream.minoffset 0).dataremaining =
        stream.cur.ftag.availbytes := by
  have hlt := dataperobj_lt stream
  have hcross : ¬ stream.minoffset ≥ stream.dataperobj := by omega
  have hoff : (stream.position stream.dataperobj stream.minoffset 0).offset =
      stream.recoveryheaderlen + stream.minoffset := by
    simp [Stream.position, hcross]
  constructor
  · rw [hoff, SizeT.sub_of_diff_lt (by omega) (by omega), Nat.add_sub_cancel_left]
  · simp [Stream.position]

theorem chunkbounds_zero : (datastreamChunkbounds 0 s).1 ≠ none := by
  rw [chunkbounds_eq, chunkOf]
  simp only [gt_iff_lt, Int.lt_irrefl, if_false, Nat.not_lt_zero]
  split
  · exact Option.some_ne_none _
  · exact Option.some_ne_none _

theorem chunkbounds_inside (hin : s.stream.minoffset < s.stream.dataperobj) {tgtoff : Nat}
    (htgtoff : tgtoff = if 0 < k then SizeT.wrap (s.stream.dataperobj - s.stream.minoffset +
      (k - 1) * s.stream.dataperobj) else 0) :
    (datastreamChunkbounds k s).1 =
      if tgtoff > s.stream.cur.ftag.availbytes then none
      else if SizeT.wrap (tgtoff + (s.stream.dataperobj - s.stream.minoffset)) >
        s.stream.cur.ftag.availbytes
      then some (tgtoff, s.stream.cur.ftag.availbytes - tgtoff)
      else some (tgtoff, s.stream.dataperobj - s.stream.minoffset) := by
  obtain ⟨hoff, hrem⟩ := position_zero hin
  have hk : ((k : Int) - 1).toNat = k - 1 := by omega
  have hpos : ((k : Int) > 0) = (0 < k) := by simp
  have hperobj : (s.stream.position s.stream.dataperobj s.stream.minoffset 0).dataperobj =
      s.stream.dataperobj := rfl
  rw [chunkbounds_eq, chunkOf, hoff]
  simp only [hrem, hk, hpos, hperobj,
    SizeT.sub_of_le (Nat.le_of_lt hin) (dataperobj_lt s.stream)]
  rw [← htgtoff]

theorem objectOf_eq_iff (hdata : 0 < stream.dataperobj) (i k : Nat) :
    stream.objectOf i = stream.cur.ftag.objno + k ↔
      k * stream.dataperobj ≤ i + stream.minoffset ∧
        i + stream.minoffset < k * stream.dataperobj + stream.dataperobj := by
  rw [Stream.objectOf, Nat.add_left_cancel_iff, Nat.div_eq_iff hdata]
  constructor
  · intro h
    exact ⟨h.1, by omega⟩
  · intro h
    exact ⟨h.1, by omega⟩

/-! ## Files whose chunks tile -/

/-- The objects of a file are counted by the last one that holds bytes of it. -/
theorem spanned_spec (hne : 0 < stream.cur.ftag.availbytes) (hdata : 0 < stream.dataperobj) :
    0 < stream.spanned ∧
      (stream.spanned - 1) * stream.dataperobj < stream.cur.ftag.availbytes + stream.minoffset ∧
      stream.cur.ftag.availbytes + stream.minoffset ≤ stream.spanned * stream.dataperobj := by
  have hpos : 0 < stream.spanned := Nat.div_pos (by omega) hdata
  have hle : stream.spanned * stream.dataperobj ≤
      stream.cur.ftag.availbytes + stream.minoffset + stream.dataperobj - 1 :=
    Nat.div_mul_le_self _ _
  have hlt : stream.cur.ftag.availbytes + stream.minoffset + stream.dataperobj - 1 <
      (stream.spanned + 1) * stream.dataperobj := by
    exact Nat.lt_mul_of_div_lt (Nat.lt_succ_self _) hdata
  rw [Nat.succ_mul] at hlt
  have hpred := Nat.sub_one_mul stream.spanned stream.dataperobj
  exact ⟨hpos, by omega, by omega⟩

theorem tgtoff_eq (hin : stream.minoffset < stream.dataperobj) (k : Nat) :
    SizeT.wrap (k * stream.dataperobj - stream.minoffset) =
      if 0 < k then SizeT.wrap (stream.dataperobj - stream.minoffset +
        (k - 1) * stream.dataperobj) else 0 := by
  cases k with
  | zero => simp [SizeT.wrap]
  | succ k =>
    rw [Nat.succ_mul, Nat.add_sub_cancel, if_pos (Nat.succ_pos k)]
    congr 1
    omega

theorem chunkbounds_at (hin : s.stream.minoffset < s.stream.dataperobj)
    (hsize : s.stream.cur.ftag.availbytes < SizeT.modulus)
    (hk : k * s.stream.dataperobj < s.stream.cur.ftag.availbytes + s.stream.minoffset) :
    (datastreamChunkbounds k s).1 =
      some (k * s.stream.dataperobj - s.stream.minoffset,
        if SizeT.wrap (k * s.stream.dataperobj - s.stream.minoffset +
            (s.stream.dataperobj - s.stream.minoffset)) > s.stream.cur.ftag.availbytes
        then s.stream.cur.ftag.availbytes - (k * s.stream.dataperobj - s.stream.minoffset)
        else s.stream.dataperobj - s.stream.minoffset) := by
  have hst := SizeT.wrap_of_lt
    (show k * s.stream.dataperobj - s.stream.minoffset < SizeT.modulus by omega)
  rw [chunkbounds_inside hin (tgtoff_eq hin k), hst, if_neg (by omega)]
  split
  · rfl
  · rfl

def chunkStart (stream : Stream) (k : Nat) : Nat :=
  min stream.cur.ftag.availbytes (k * stream.dataperobj - stream.minoffset)

theorem bytes_of_chunk (hdata : 0 < stream.dataperobj)
    (hk : k * stream.dataperobj < stream.cur.ftag.availbytes + stream.minoffset) (i : Nat) :
    (chunkStart stream k ≤ i ∧ i < chunkStart stream (k + 1)) ↔
      (i < stream.cur.ftag.availbytes ∧ stream.objectOf i = stream.cur.ftag.objno + k) := by
  rw [objectOf_eq_iff hdata, chunkStart, chunkStart, Nat.succ_mul]
  generalize k * stream.dataperobj = before at hk
  constructor
  · intro h
    refine ⟨by omega, by omega, by omega⟩
  · intro h
    refine ⟨by omega, by omega⟩

/-- A file that shares its first object has at most one object more. -/
theorem spanned_le_two (hin : m < D) (hshort : A ≤ 2 * (D - m)) (hlast : (K - 1) * D < A + m)
    (hshared : m ≠ 0) : K ≤ 2 := by
  have hlt : (K - 1) * D < 2 * D := by omega
  have := Nat.lt_of_mul_lt_mul_right hlt
  omega

/-- The size of a chunk, by whether the file shares its first object and whether the chunk is its
last one. -/
theorem size_of_even (hA : A < SizeT.modulus) (hD : D < SizeT.modulus) (hin : m < D)
    (hshort : m = 0 ∨ A ≤ 2 * (D - m)) (hlast : (K - 1) * D < A + m) (hends : A < SizeT.wrap (K * D - m))
    (hk : k < K) :
    (if SizeT.wrap (k * D - m + (D - m)) > A then A - (k * D - m) else D - m) =
      min A ((k + 1) * D - m) - min A (k * D - m) := by
  have hend : A < K * D - m := Nat.lt_of_lt_of_le hends (Nat.mod_le _ _)
  by_cases hshared : m = 0
  · subst hshared
    simp only [Nat.sub_zero, ← Nat.succ_mul, Nat.succ_eq_add_one] at *
    by_cases hfinal : k + 1 = K
    · rw [hfinal, if_pos (by omega)]
      omega
    · have hle : (k + 1) * D ≤ (K - 1) * D := Nat.mul_le_mul_right _ (by omega)
      have hsucc := Nat.add_one_mul k D
      rw [SizeT.wrap_of_lt (by omega), if_neg (by omega)]
      omega
  · have htwo := spanned_le_two hin (hshort.resolve_left hshared) hlast hshared
    replace hshort := hshort.resolve_left hshared
    obtain ⟨rfl, rfl⟩ | ⟨rfl, rfl⟩ | ⟨rfl, rfl⟩ :
        (k = 0 ∧ K = 1) ∨ (k = 0 ∧ K = 2) ∨ (k = 1 ∧ K = 2) := by omega
    · simp only [Nat.zero_mul, Nat.zero_sub, Nat.zero_add, Nat.one_mul] at *
      rw [if_pos hends]
      omega
    · simp only [Nat.zero_mul, Nat.zero_sub, Nat.zero_add, Nat.one_mul] at *
      rw [SizeT.wrap_of_lt (by omega), if_neg (by omega)]
      omega
    · simp only [Nat.one_mul] at *
      -- a second chunk that wraps around would have been accepted behind the end
      have hfits : D - m + (D - m) < SizeT.modulus := by
        by_contra hwraps
        have hwrap : SizeT.wrap (2 * D - m) = 2 * D - m - SizeT.modulus := by
          rw [SizeT.wrap, Nat.mod_eq_sub_mod (by omega), Nat.mod_eq_of_lt (by omega)]
        omega
      rw [SizeT.wrap_of_lt hfits]
      split
      · omega
      · omega

theorem isChunk_of_even (heven : s.stream.EvenChunks) (hsize : s.stream.cur.ftag.availbytes < SizeT.modulus)
    (hk : k < s.stream.spanned) : IsChunk s k (chunkStart s.stream k) (chunkStart s.stream (k + 1)) := by
  have hdata : 0 < s.stream.dataperobj := Nat.zero_lt_of_lt heven.inside
  obtain ⟨hpos, hlast, hend⟩ := spanned_spec heven.nonempty hdata
  have hbef : k * s.stream.dataperobj ≤ (s.stream.spanned - 1) * s.stream.dataperobj :=
    Nat.mul_le_mul_right _ (by omega)
  have hstarts : k * s.stream.dataperobj < s.stream.cur.ftag.availbytes + s.stream.minoffset :=
    Nat.lt_of_le_of_lt hbef hlast
  have hne := heven.nonempty
  refine ⟨?_, ?_, bytes_of_chunk hdata hstarts⟩
  · have hsizes := size_of_even hsize (dataperobj_lt s.stream) heven.inside heven.short hlast
      heven.ends hk
    have hst : min s.stream.cur.ftag.availbytes
        (k * s.stream.dataperobj - s.stream.minoffset) =
        k * s.stream.dataperobj - s.stream.minoffset := by omega
    rw [chunkbounds_at heven.inside hsize hstarts, hsizes, chunkStart, chunkStart, hst]
  · have := heven.inside
    have hsucc := Nat.succ_mul k s.stream.dataperobj
    rw [chunkStart, chunkStart, hsucc]
    omega

theorem rejected_of_even (heven : s.stream.EvenChunks) :
    (datastreamChunkbounds s.stream.spanned s).1 = none := by
  rw [chunkbounds_inside heven.inside (tgtoff_eq heven.inside s.stream.spanned),
    if_pos heven.ends]

theorem tile_of_even (hsize : s.stream.cur.ftag.availbytes < SizeT.modulus)
    (heven : s.stream.EvenChunks) : ChunksTile s := by
  have hdata : 0 < s.stream.dataperobj := Nat.zero_lt_of_lt heven.inside
  obtain ⟨hpos, hlast, hend⟩ := spanned_spec heven.nonempty hdata
  refine ⟨Nat.ne_of_gt hdata, s.stream.spanned, chunkStart s.stream, heven.numbered, ?_, ?_, ?_,
    rejected_of_even heven⟩
  · simp [chunkStart]
  · rw [chunkStart]
    omega
  · intro k hk
    exact isChunk_of_even heven hsize hk

/-! ## Only files whose chunks tile -/

theorem bound_of_chunk {start stop : Nat} (hdata : 0 < s.stream.dataperobj)
    (hchunk : IsChunk s k start stop) :
    start = k * s.stream.dataperobj - s.stream.minoffset ∧
      stop = min s.stream.cur.ftag.availbytes
        (k * s.stream.dataperobj + s.stream.dataperobj - s.stream.minoffset) ∧ start < stop := by
  have hne := hchunk.nonempty
  have hfst := (hchunk.bytes start).1 ⟨by omega, by omega⟩
  have hlast := (hchunk.bytes (stop - 1)).1 ⟨by omega, by omega⟩
  have hbef := (hchunk.bytes (start - 1)).2
  have hbeh := (hchunk.bytes stop).2
  rw [objectOf_eq_iff hdata] at hfst hlast hbef hbeh
  omega

theorem spanned_of_tile (hdata : 0 < s.stream.dataperobj) (hend : bound n = s.stream.cur.ftag.availbytes)
    (hchunk : ∀ k, k < n → IsChunk s k (bound k) (bound (k + 1))) (hn : 0 < n) : n = s.stream.spanned := by
  obtain ⟨hst, hstop, hlt⟩ := bound_of_chunk hdata (hchunk (n - 1) (by omega))
  rw [show n - 1 + 1 = n by omega, hend] at hstop hlt
  have hpred := Nat.sub_one_mul n s.stream.dataperobj
  have hle : s.stream.dataperobj ≤ n * s.stream.dataperobj := Nat.le_mul_of_pos_left _ hn
  rw [Stream.spanned, eq_comm, Nat.div_eq_iff hdata]
  omega

theorem short_of_tile (hin : s.stream.minoffset < s.stream.dataperobj)
    (hsize : s.stream.cur.ftag.availbytes < SizeT.modulus) (hend : bound n = s.stream.cur.ftag.availbytes)
    (hchunk : ∀ k, k < n → IsChunk s k (bound k) (bound (k + 1))) (hn : 0 < n) :
    s.stream.minoffset = 0 ∨
      s.stream.cur.ftag.availbytes ≤ 2 * (s.stream.dataperobj - s.stream.minoffset) := by
  have hdata : 0 < s.stream.dataperobj := Nat.zero_lt_of_lt hin
  by_cases hone : n = 1
  · subst hone
    have hfst := bound_of_chunk hdata (hchunk 0 hn)
    rw [Nat.zero_mul, Nat.zero_add, Nat.zero_add] at hfst
    omega
  · have hsecond := bound_of_chunk hdata (hchunk 1 (by omega))
    have hbnds := (hchunk 1 (by omega)).bounds
    rw [chunkbounds_at hin hsize (by omega), Option.some.injEq, Prod.mk.injEq] at hbnds
    by_contra hlong
    rw [SizeT.wrap_of_lt (by omega), if_neg (by omega)] at hbnds
    omega

theorem even_of_tile (hsize : s.stream.cur.ftag.availbytes < SizeT.modulus)
    (htile : ChunksTile s) : s.stream.EvenChunks := by
  obtain ⟨n, bound, hint, hzero, hend, hchunk, hpast⟩ := htile.tile
  have hdata : 0 < s.stream.dataperobj := Nat.pos_of_ne_zero htile.divides
  have hn : 0 < n := by
    refine Nat.pos_of_ne_zero fun hn => ?_
    rw [hn] at hpast
    exact chunkbounds_zero hpast
  have hfst := (hchunk 0 hn).bytes (bound 0)
  have hin : s.stream.minoffset < s.stream.dataperobj := by
    have hobj := (hfst.1 ⟨Nat.le_refl _, (hchunk 0 hn).nonempty⟩).2
    rw [objectOf_eq_iff hdata] at hobj
    omega
  have hspanned := spanned_of_tile hdata hend hchunk hn
  refine ⟨?_, hin, short_of_tile hin hsize hend hchunk hn, ?_, ?_⟩
  · exact Nat.zero_lt_of_lt (hfst.1 ⟨Nat.le_refl _, (hchunk 0 hn).nonempty⟩).1
  · rw [← hspanned]
    exact hint
  · rw [chunkbounds_inside hin (tgtoff_eq hin n)] at hpast
    rw [← hspanned]
    by_contra hends
    rw [if_neg (by omega)] at hpast
    split at hpast
    · cases hpast
    · cases hpast

/-- The chunks of a file tile it exactly where they can be cut evenly: the first chunk of a file that
shares its first object is short, and every later one is taken to be as short as that; and a file
that ends where an object does has one more chunk, which is empty. -/
theorem chunks_tile_iff (s : Sys) (hsize : s.stream.cur.ftag.availbytes < SizeT.modulus) :
    ChunksTile s ↔ s.stream.EvenChunks :=
  ⟨even_of_tile hsize, tile_of_even hsize⟩

def sampleShared (availbytes : Nat) : Sys :=
  { stream :=
      { type := .read
        scheme :=
          { objfiles := 0, objsize := 164, refbreadth := 1, refdepth := 1, refdigits := 1
            protection := { N := 1, E := 0, O := 0, partsz := 1024 } }
        ctag := ['c'], streamid := ['s'], recoveryheaderlen := 32, fileno := 1, objno := 0
        offset := 92, excessoffset := 0, datahandle := none
        files := fun _ =>
          { metahandle := true
            ftag := { sampleFtag 1 0 true with
              objsize := 164, offset := 92, recoverybytes := 32, bytes := availbytes, availbytes := availbytes } }
        curfile := 0
        finfo :=
          { inode := 1, mode := 1, owner := 0, group := 0, size := availbytes, mtimeSec := 0, mtimeNsec := 0
            eof := true, path := ['p'] } }
    live := true, objs := fun _ => [], closed := fun _ => true, ftags := fun _ => none
    outcomes := [], wrapped := false }

/-- Its chunks tile it where it needs no third object and no more of the second one than it has of
the first. -/
theorem sampleShared_tiles : ChunksTile (sampleShared 70) :=
  (chunks_tile_iff (sampleShared 70) (by decide)).2
    { nonempty := by decide
      inside := by decide
      short := .inr (by decide)
      numbered := by decide
      ends := by decide }

/-- The second chunk of a file of three objects ends before its object does. -/
theorem sampleShared_gap : ¬ ChunksTile (sampleShared 220) := by
  intro htile
  have heven := even_of_tile (by decide) htile
  have hshort : ¬ ((sampleShared 220).stream.minoffset = 0 ∨ 220 ≤
      2 * ((sampleShared 220).stream.dataperobj - (sampleShared 220).stream.minoffset)) := by
    decide
  exact hshort heven.short

end Sys

end Marfs.Datastream
