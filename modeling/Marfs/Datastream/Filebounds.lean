import Marfs.Machine.SizeT
import Marfs.Recovery.Header
import Marfs.Tagging.Ftag

/-!
# The objects a file spans

`datastreamFilebounds` is the number of the last data object that holds bytes of a file, computed
from its FTAG alone.
-/

namespace Marfs.Datastream

open Machine Recovery Tagging

def headerlen (ftag : Ftag) : Nat :=
  (recoveryHeadertostr
    { majorversion := ftag.majorversion, minorversion := ftag.minorversion,
      ctag := ftag.ctag, streamid := ftag.streamid }).length

/-- The room an object of the file's stream has for file data; zero when objects are unbounded. -/
def dataperobj (ftag : Ftag) : Nat :=
  if ftag.objsize ≠ 0 then SizeT.sub ftag.objsize (headerlen ftag + ftag.recoverybytes) else 0

def dataExtent (ftag : Ftag) : Nat := SizeT.sub (ftag.bytes + ftag.offset) (headerlen ftag)

/-- How many objects the file goes beyond its first one.  A finalized file that ends exactly at the
end of an object does not reach the next one. -/
def finobjbounds (ftag : Ftag) : Nat :=
  let bounds := dataExtent ftag / dataperobj ftag
  if !ftag.unfinalized && bounds ≠ 0 && dataExtent ftag % dataperobj ftag = 0 then bounds - 1
  else bounds

/-- `datastream_filebounds`: the final object number referenced by `ftag`, inclusive and
absolute. -/
def datastreamFilebounds (ftag : Ftag) : Nat :=
  if dataperobj ftag = 0 then ftag.objno else ftag.objno + finobjbounds ftag

theorem objno_le_filebounds (ftag : Ftag) : ftag.objno ≤ datastreamFilebounds ftag := by
  unfold datastreamFilebounds
  split <;> omega

theorem finobjbounds_spec {ftag : Ftag} (hfinal : ftag.unfinalized = false) (hdata : dataperobj ftag ≠ 0) :
    (finobjbounds ftag = 0 ∨ finobjbounds ftag * dataperobj ftag < dataExtent ftag) ∧
      dataExtent ftag ≤ (finobjbounds ftag + 1) * dataperobj ftag := by
  have hspl := Nat.div_add_mod' (dataExtent ftag) (dataperobj ftag)
  have hlt := Nat.mod_lt (dataExtent ftag) (Nat.pos_of_ne_zero hdata)
  have hsucc : ∀ n, (n + 1) * dataperobj ftag = n * dataperobj ftag + dataperobj ftag :=
    fun n => Nat.succ_mul n _
  unfold finobjbounds
  simp only [hfinal, Bool.not_false, Bool.true_and, Bool.and_eq_true, decide_eq_true_eq, ne_eq]
  split
  · next h =>
    obtain ⟨n, hn⟩ := Nat.exists_eq_succ_of_ne_zero h.1
    rw [hn, Nat.succ_eq_add_one, hsucc] at hspl
    rw [hn, Nat.succ_eq_add_one, Nat.add_sub_cancel]
    have := hsucc n
    refine ⟨.inr ?_, ?_⟩
    · omega
    · omega
  · next h =>
    rw [hsucc]
    refine ⟨?_, by omega⟩
    by_cases hzero : dataExtent ftag / dataperobj ftag = 0
    · exact .inl hzero
    · have hmod : dataExtent ftag % dataperobj ftag ≠ 0 := fun hmod => h ⟨hzero, hmod⟩
      exact .inr (by omega)

end Marfs.Datastream
