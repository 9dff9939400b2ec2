import Zstandard.Options.Basic

/-!
# Valid options

Options are valid just if every parameter that is present has an interval and lies in it
(`validateWith_eq_ok_iff`). Where the intervals are of 32-bit words, so are the values
(`Limits.AreWords`), and the library is told the values as they are.
-/

namespace Zstandard

theorem Interval.contains_iff {i : Interval} {v : Int} :
    i.contains v = true ↔ i.lower ≤ v ∧ v ≤ i.upper := decide_eq_true_iff

theorem Parameter.mem_all (p : Parameter) : p ∈ Parameter.all := by
  cases p <;> decide

/-- An interval of 32-bit words. -/
def Interval.IsOfWords (i : Interval) : Prop := -2 ^ 31 ≤ i.lower ∧ i.upper < 2 ^ 31

/-- What is in an interval of 32-bit words is one. -/
theorem Interval.IsOfWords.toInt {i : Interval} (h : i.IsOfWords) {v : Int}
    (hv : i.contains v = true) : (Int32.ofInt v).toInt = v := by
  obtain ⟨hlower, hupper⟩ := h
  obtain ⟨hle, hge⟩ := Interval.contains_iff.mp hv
  exact Int32.toInt_ofInt_of_le (by omega) (by omega)

/-- Every interval is one of 32-bit words. -/
structure Limits.AreWords (limits : Limits) : Prop where
  parameter : ∀ p i, limits.parameter p = some i → i.IsOfWords
  windowLogMax : ∀ i, limits.windowLogMax = some i → i.IsOfWords

theorem Limits.library_areWords : Limits.library.AreWords where
  parameter p i h := by
    obtain rfl : p.interval = i := Option.some.inj h
    cases p <;> exact ⟨by decide, by decide⟩
  windowLogMax i h := by
    obtain rfl : Interval.mk 10 31 = i := Option.some.inj h
    exact ⟨by decide, by decide⟩

/-- Of three verdicts on a value, the one for its interval is given just if it lies there. -/
theorem verdict_eq_iff {α : Type} {limit : Option Interval} {v : Int} {unknown within outside : α}
    (hunknown : unknown ≠ within) (houtside : outside ≠ within) :
    (match limit with
      | none => unknown
      | some i => if i.contains v then within else outside) = within
      ↔ ∃ i, limit = some i ∧ i.contains v = true := by
  cases limit with
  | none => exact iff_of_false hunknown nofun
  | some i =>
      by_cases hc : i.contains v = true
      · exact iff_of_true (if_pos hc) ⟨i, rfl, hc⟩
      · refine iff_of_false ?_ fun ⟨j, hj, hcontains⟩ => ?_
        · simpa only [if_neg hc] using houtside
        · cases hj
          exact hc hcontains

namespace CompressorOptions

variable {limits : Limits} {o : CompressorOptions}

/-- Nothing is wrong with a parameter that is absent, or lies in its interval. -/
theorem problem?_eq_none_iff {p : Parameter} :
    o.problem? limits p = none
      ↔ ∀ v, o.value? p = some v → ∃ i, limits.parameter p = some i ∧ i.contains v = true := by
  unfold problem?
  cases o.value? p with
  | none => exact ⟨fun _ => nofun, fun _ => rfl⟩
  | some v =>
      refine Iff.trans (verdict_eq_iff ?_ ?_) ⟨fun h w hw => ?_, fun h => h v rfl⟩
      · nofun
      · nofun
      · cases hw
        exact h

/-- **Options are valid** if every parameter that is present lies in its interval. -/
theorem validateWith_eq_ok_iff :
    o.validateWith limits = .ok () ↔ ∀ p v, o.value? p = some v →
      ∃ i, limits.parameter p = some i ∧ i.contains v = true := by
  have hnone : o.validateWith limits = .ok ()
      ↔ Parameter.all.findSome? (o.problem? limits) = none := by
    unfold validateWith
    cases Parameter.all.findSome? (o.problem? limits) with
    | none => exact ⟨fun _ => rfl, fun _ => rfl⟩
    | some e => exact ⟨nofun, nofun⟩
  rw [hnone, List.findSome?_eq_none_iff]
  exact ⟨fun h p => problem?_eq_none_iff.mp (h p p.mem_all),
    fun h p _ => problem?_eq_none_iff.mpr (h p)⟩

end CompressorOptions

namespace DecompressorOptions

/-- **Options are valid** if a window limit that is present lies in its interval. -/
theorem validateWith_eq_ok_iff {limits : Limits} {o : DecompressorOptions} :
    o.validateWith limits = .ok () ↔ ∀ v, o.windowLogMax = some v →
      ∃ i, limits.windowLogMax = some i ∧ i.contains v.toNat = true := by
  unfold validateWith
  cases o.windowLogMax with
  | none => exact ⟨fun _ => nofun, fun _ => rfl⟩
  | some v =>
      refine Iff.trans (verdict_eq_iff ?_ ?_) ⟨fun h w hw => ?_, fun h => h v rfl⟩
      · nofun
      · nofun
      · cases hw
        exact h

end DecompressorOptions

end Zstandard
