import Mathlib.Data.Finset.Insert

/- Two runs of the same steps, the second from the state that the first ends in. A place holds the
   same in both runs once it has been written; until then the second run finds in it what the first
   one leaves there. So the second run finds what the first one found in a place that is written
   before it is read, and in one that the first run leaves as it was; and where the first run ends
   the second one ends too. -/
namespace DolphinXR.Lib
variable {α ι : Type*}

/-- What a place that the first run leaves as `last` holds in the two runs. -/
def Replayed (written : Prop) (last first second : α) : Prop :=
  first = second ∨ ¬written ∧ second = last

namespace Replayed
variable {written written' : Prop} {last first second : α}

theorem same (value : α) : Replayed written last value value := Or.inl rfl

theorem start (h : ¬written) : Replayed written last first last := Or.inr ⟨h, rfl⟩

theorem mono (h : Replayed written last first second) (hw : written' → written) :
    Replayed written' last first second :=
  h.imp_right fun ⟨hnot, hlast⟩ => ⟨fun h' => hnot (hw h'), hlast⟩

theorem eq (h : Replayed written last first second) (hread : written ∨ first = last) :
    first = second := by
  obtain heq | ⟨hnot, hlast⟩ := h
  · exact heq
  · exact (hread.resolve_left hnot).trans hlast.symm

theorem eq_last (h : Replayed written last last second) : second = last := by
  obtain heq | ⟨_, hlast⟩ := h
  · exact heq.symm
  · exact hlast

theorem or (h : Replayed False l a b) (value : Bool) :
    Replayed False l (a || value) (b || value) := by
  cases value with
  | false => rwa [Bool.or_false, Bool.or_false]
  | true =>
    rw [Bool.or_true, Bool.or_true]
    exact same true

variable [DecidableEq ι] {places : Finset ι} {lasts firsts seconds : ι → α}

theorem update (h : ∀ i, Replayed (i ∈ places) (lasts i) (firsts i) (seconds i)) (place : ι)
    (value : α) (i : ι) :
    Replayed (i ∈ insert place places) (lasts i) (Function.update firsts place value i)
      (Function.update seconds place value i) := by
  by_cases hi : i = place
  · subst hi
    rw [Function.update_self, Function.update_self]
    exact same value
  · rw [Function.update_of_ne hi, Function.update_of_ne hi]
    exact (h i).mono fun hmem => (Finset.mem_insert.1 hmem).resolve_left hi

end Replayed
end DolphinXR.Lib
