import Zstandard.Proofs.OptionViews

/-!
# The first problem of a map

A map of options is refused in two passes. The first goes over the keys, in the order they are
resolved, and looks at the shape of what stands under each. The second goes over the parameters, and
looks at what number each is given. What is found first is told, and a number is looked at only
where nothing is wrong with any shape (`TellsFirst`).

The second pass is over the fields of what was resolved. A field is what the map describes, so the
pass is as good as one over the map itself (`value?_of_describes`, `validateWith_of_describes`).
-/

namespace Zstandard

/-! ## Numbers under keys -/

namespace OptionValue

/-- The number a value gives to a parameter. -/
def number? : OptionValue → Option Int
  | .bool b => some b.toNat
  | .integer i => some i.toInt
  | .symbol name =>
    match Strategy.ofName? name with
    | .ok s => some s.number
    | .error _ => none
  | .dictionary _ => none

theorem number?_ofInt32 (v : Int32) : (ofInt32 v).number? = some v.toInt :=
  congrArg some (toInt_ofInt (int32_bounds v))

theorem number?_ofWord32 (v : UInt32) : (ofWord32 v).number? = some (v.toNat : Int) :=
  congrArg some (toInt_ofInt (word32_bounds v))

theorem number?_bool (b : Bool) : (bool b).number? = some (b.toNat : Int) := rfl

theorem number?_ofStrategy (s : Strategy) : (ofStrategy s).number? = some (s.number : Int) := by
  simp only [ofStrategy, number?, Strategy.ofName?_name]

end OptionValue

/-- Where a number has to be that stands under a key. -/
structure Bound where
  key : OptionKey
  interval : Interval
  /-- What the number is of, in an error text. -/
  phrase : String

namespace OptionMap

variable {m : OptionMap} {b : Bound}

/-- The number under a key. -/
def number? (m : OptionMap) (k : OptionKey) : Option Int := (m.get? k.name).bind OptionValue.number?

/-- What was written as it is, is given to the parameter as it is. -/
theorem number?_of_get? {α : Type} {k : OptionKey} {write : α → OptionValue} {value : α → Int}
    {x : Option α} (hwrite : ∀ a, (write a).number? = some (value a))
    (h : m.get? k.name = x.map write) : x.map value = m.number? k := by
  rw [number?, h]
  cases x with
  | none => rfl
  | some a => exact (hwrite a).symm

/-- The number under the key is out of bounds. -/
def IsOutside (m : OptionMap) (b : Bound) : Prop :=
  ∃ v, m.number? b.key = some v ∧ b.interval.contains v = false

/-- What is told about a number, if it is out of bounds. -/
def excess? (m : OptionMap) (b : Bound) : Option String :=
  match m.number? b.key with
  | none => none
  | some v => if b.interval.contains v then none else some ("invalid " ++ b.phrase)

theorem excess?_of_isOutside (h : m.IsOutside b) : m.excess? b = some ("invalid " ++ b.phrase) := by
  obtain ⟨v, hv, hc⟩ := h
  simp only [excess?, hv, hc]
  rfl

theorem excess?_of_not_isOutside (h : ¬m.IsOutside b) : m.excess? b = none := by
  unfold excess?
  cases hv : m.number? b.key with
  | none => rfl
  | some v =>
      by_cases hc : b.interval.contains v = true
      · exact if_pos hc
      · exact absurd ⟨v, hv, Bool.eq_false_iff.mpr hc⟩ h

/-! ## What is told -/

/-- What is told of a map: the first thing wrong under a key, or else the first number that is out
of bounds. -/
def reason? (m : OptionMap) (keys : List OptionKey) (bounds : List Bound) : Option String :=
  (keys.findSome? m.complaint?).or (bounds.findSome? m.excess?)

/-- A result fails just with what is told. -/
def Tells {ο : Type} (m : OptionMap) (keys : List OptionKey) (bounds : List Bound)
    (result : Except Error ο) : Prop :=
  ∀ e, result = .error e
    ↔ ∃ reason, m.reason? keys bounds = some reason ∧ e = .validateFailed reason

/-- The verdict over the numbers. -/
def verdict (m : OptionMap) (bounds : List Bound) : Except Error Unit :=
  match bounds.findSome? m.excess? with
  | some reason => .error (.validateFailed reason)
  | none => .ok ()

/-- What is resolved key by key, and checked as the map is, fails with what is told. -/
theorem Reads.tells {ο : Type} {keys : List OptionKey} {bounds : List Bound}
    {resolved : Except Error ο} {validate : ο → Except Error Unit} {P : ο → Prop}
    (h : m.Reads keys resolved P) (hvalid : ∀ o, P o → validate o = m.verdict bounds) :
    m.Tells keys bounds (do let o ← resolved; validate o; return o) := by
  intro e
  refine checked_eq_error_iff.trans ?_
  unfold Reads at h
  unfold reason?
  cases hkeys : keys.findSome? m.complaint? with
  | some reason =>
      simp only [hkeys] at h
      subst h
      refine ⟨fun he => ⟨reason, rfl, ?_⟩, fun ⟨r, hr, he⟩ => .inl ?_⟩
      · rcases he with he | ⟨o, ho, -⟩
        · exact (Except.error.inj he).symm
        · cases ho
      · rw [he, ← Option.some.inj hr]
  | none =>
      simp only [hkeys] at h
      obtain ⟨o, rfl, ho⟩ := h
      have hverdict := hvalid o ho
      unfold verdict at hverdict
      rw [Option.none_or]
      cases hbounds : bounds.findSome? m.excess? with
      | some reason =>
          simp only [hbounds] at hverdict
          refine ⟨fun he => ⟨reason, rfl, ?_⟩, fun ⟨r, hr, he⟩ => .inr ⟨o, rfl, ?_⟩⟩
          · obtain ⟨o', ho', he⟩ := he.resolve_left nofun
            cases ho'
            exact Except.error.inj (he.symm.trans hverdict)
          · rw [he, ← Option.some.inj hr, hverdict]
      | none =>
          simp only [hbounds] at hverdict
          refine ⟨fun he => ?_, nofun⟩
          obtain ⟨o', ho', he⟩ := he.resolve_left nofun
          cases ho'
          cases hverdict.symm.trans he

end OptionMap

/-- **The first problem is told.** -/
structure TellsFirst {ο : Type} (keys : List OptionKey) (bounds : List Bound)
    (ofMap : OptionMap → Except Error ο) : Prop where
  /-- A map is refused just if something is wrong under a key, or a number is out of bounds. -/
  refused_iff : ∀ m, (∃ e, ofMap m = .error e) ↔
    (∃ k ∈ keys, ∃ p, m.problem? k = some p) ∨ ∃ b ∈ bounds, m.IsOutside b
  validateFailed : ∀ m e, ofMap m = .error e → ∃ reason, e = .validateFailed reason
  /-- Of what is wrong under keys, the first is told. -/
  problem_first : ∀ m before k after p, keys = before ++ k :: after →
    (∀ k' ∈ before, m.problem? k' = none) → m.problem? k = some p →
    ofMap m = .error (.validateFailed (k.reason p))
  /-- If nothing is, the first number out of bounds is told. -/
  bound_next : ∀ m before b after, (∀ k ∈ keys, m.problem? k = none) →
    bounds = before ++ b :: after → (∀ b' ∈ before, ¬m.IsOutside b') → m.IsOutside b →
    ofMap m = .error (.validateFailed ("invalid " ++ b.phrase))
  /-- Other keys are not looked at. -/
  unread : ∀ m m', (∀ k ∈ keys, m'.get? k.name = m.get? k.name) → ofMap m' = ofMap m

section TellsFirst

variable {ο : Type} {keys : List OptionKey} {bounds : List Bound} {m m' : OptionMap}

theorem OptionMap.excess?_eq_none {b : Bound} : m.excess? b = none ↔ ¬m.IsOutside b := by
  refine ⟨fun h hout => ?_, excess?_of_not_isOutside⟩
  rw [excess?_of_isOutside hout] at h
  cases h

/-- Nothing is told of a map just if nothing is wrong with it. -/
theorem OptionMap.reason?_eq_none :
    m.reason? keys bounds = none
      ↔ (∀ k ∈ keys, m.problem? k = none) ∧ ∀ b ∈ bounds, ¬m.IsOutside b := by
  have hcomplaint : ∀ k, m.complaint? k = none ↔ m.problem? k = none := fun k =>
    Option.map_eq_none_iff
  simp only [reason?, Option.or_eq_none_iff, List.findSome?_eq_none_iff, hcomplaint,
    excess?_eq_none]

theorem OptionMap.reason?_of_problem {before after : List OptionKey} {k : OptionKey} {p : Problem}
    (hbefore : ∀ k' ∈ before, m.problem? k' = none) (hk : m.problem? k = some p) :
    m.reason? (before ++ k :: after) bounds = some (k.reason p) := by
  have hfirst : (before ++ k :: after).findSome? m.complaint? = some (k.reason p) := by
    refine List.findSome?_eq_some_iff.mpr ⟨before, k, after, rfl, ?_, fun k' hk' => ?_⟩
    · rw [complaint?, hk, Option.map_some]
    · rw [complaint?, hbefore k' hk', Option.map_none]
  rw [reason?, hfirst, Option.some_or]

theorem OptionMap.reason?_of_isOutside {before after : List Bound} {b : Bound}
    (hkeys : ∀ k ∈ keys, m.problem? k = none) (hbefore : ∀ b' ∈ before, ¬m.IsOutside b')
    (hb : m.IsOutside b) :
    m.reason? keys (before ++ b :: after) = some ("invalid " ++ b.phrase) := by
  have hcomplaints : keys.findSome? m.complaint? = none :=
    List.findSome?_eq_none_iff.mpr fun k hk => Option.map_eq_none_iff.mpr (hkeys k hk)
  rw [reason?, hcomplaints, Option.none_or]
  exact List.findSome?_eq_some_iff.mpr ⟨before, b, after, rfl, excess?_of_isOutside hb,
    fun b' hb' => excess?_of_not_isOutside (hbefore b' hb')⟩

/-- What is found first in a list depends on its members alone. -/
theorem findSome?_congr {α β : Type} {f g : α → Option β} {l : List α} (h : ∀ a ∈ l, f a = g a) :
    l.findSome? f = l.findSome? g := by
  induction l with
  | nil => rfl
  | cons a l ih =>
      obtain ⟨ha, hl⟩ := List.forall_mem_cons.mp h
      rw [List.findSome?_cons, List.findSome?_cons, ha, ih hl]

/-- Maps that agree on the keys are told about alike. -/
theorem OptionMap.reason?_congr (hbounds : ∀ b ∈ bounds, b.key ∈ keys)
    (h : ∀ k ∈ keys, m'.get? k.name = m.get? k.name) :
    m'.reason? keys bounds = m.reason? keys bounds := by
  have hcomplaint : ∀ k ∈ keys, m'.complaint? k = m.complaint? k := fun k hk => by
    simp only [complaint?, problem?, h k hk]
  have hexcess : ∀ b ∈ bounds, m'.excess? b = m.excess? b := fun b hb => by
    simp only [excess?, number?, h b.key (hbounds b hb)]
  rw [reason?, reason?, findSome?_congr hcomplaint, findSome?_congr hexcess]

/-- Results that fail with what is told of their maps tell the first problem. -/
theorem tellsFirst_of_tells {ofMap : OptionMap → Except Error ο}
    (h : ∀ m : OptionMap, m.Tells keys bounds (ofMap m)) (hbounds : ∀ b ∈ bounds, b.key ∈ keys)
    (hunread : ∀ (m m' : OptionMap) o, (∀ k ∈ keys, m'.get? k.name = m.get? k.name) →
      ofMap m = .ok o → ofMap m' = .ok o) : TellsFirst keys bounds ofMap where
  refused_iff m := by
    have hreason : (∃ e, ofMap m = .error e) ↔ m.reason? keys bounds ≠ none := by
      rw [Option.ne_none_iff_exists']
      refine ⟨fun ⟨e, he⟩ => ?_, fun ⟨reason, hr⟩ => ⟨_, (h m _).mpr ⟨reason, hr, rfl⟩⟩⟩
      obtain ⟨reason, hr, -⟩ := (h m e).mp he
      exact ⟨reason, hr⟩
    rw [hreason, ne_eq, OptionMap.reason?_eq_none, Classical.not_and_iff_not_or_not]
    simp only [Classical.not_forall, Classical.not_not, ← ne_eq, Option.ne_none_iff_exists',
      exists_prop]
  validateFailed m e he := by
    obtain ⟨reason, -, rfl⟩ := (h m e).mp he
    exact ⟨reason, rfl⟩
  problem_first m before k after p hkeys hbefore hk := by
    subst hkeys
    exact (h m _).mpr ⟨_, OptionMap.reason?_of_problem hbefore hk, rfl⟩
  bound_next m before b after hkeys hsplit hbefore hb := by
    subst hsplit
    exact (h m _).mpr ⟨_, OptionMap.reason?_of_isOutside hkeys hbefore hb, rfl⟩
  unread m m' hagree := by
    cases hm : ofMap m with
    | ok o => exact hunread m m' o hagree hm
    | error e =>
        obtain ⟨reason, hr, rfl⟩ := (h m e).mp hm
        exact (h m' _).mpr ⟨reason, (OptionMap.reason?_congr hbounds hagree).trans hr, rfl⟩

end TellsFirst

/-! ## Options of both kinds -/

/-- Limits that have an interval for every parameter. -/
def Limits.known (parameter : Parameter → Interval) (windowLogMax : Interval) : Limits :=
  ⟨fun p => some (parameter p), some windowLogMax⟩

namespace CompressorOptions

variable {m m' : OptionMap} {o : CompressorOptions}

/-- The bounds of the parameters, in the order they are applied. -/
def bounds (parameter : Parameter → Interval) : List Bound :=
  Parameter.all.map fun p => ⟨p.key, parameter p, p.phrase⟩

/-- A parameter has the number that stands under its key. -/
theorem value?_of_describes (h : o.Describes m) (p : Parameter) : o.value? p = m.number? p.key := by
  have word {k : OptionKey} {x : Option UInt32} (h : m.get? k.name = x.map .ofWord32) :=
    OptionMap.number?_of_get? OptionValue.number?_ofWord32 h
  have flag {k : OptionKey} {x : Option Bool} (h : m.get? k.name = x.map .bool) :=
    OptionMap.number?_of_get? OptionValue.number?_bool h
  cases p with
  | compressionLevel =>
      exact OptionMap.number?_of_get? OptionValue.number?_ofInt32 h.compressionLevel
  | windowLog => exact word h.windowLog
  | hashLog => exact word h.hashLog
  | chainLog => exact word h.chainLog
  | searchLog => exact word h.searchLog
  | minMatch => exact word h.minMatch
  | targetLength => exact word h.targetLength
  | strategy => exact OptionMap.number?_of_get? OptionValue.number?_ofStrategy h.strategy
  | enableLongDistanceMatching => exact flag h.enableLongDistanceMatching
  | ldmHashLog => exact word h.ldmHashLog
  | ldmMinMatch => exact word h.ldmMinMatch
  | ldmBucketSizeLog => exact word h.ldmBucketSizeLog
  | ldmHashRateLog => exact word h.ldmHashRateLog
  | contentSizeFlag => exact flag h.contentSizeFlag
  | checksumFlag => exact flag h.checksumFlag
  | dictIdFlag => exact flag h.dictIdFlag
  | nbWorkers => exact word h.nbWorkers
  | jobSize => exact word h.jobSize
  | overlapLog => exact word h.overlapLog

/-- Options are checked as the map is that describes them. -/
theorem validateWith_of_describes (parameter : Parameter → Interval) (window : Interval)
    (h : o.Describes m) :
    o.validateWith (.known parameter window) = m.verdict (bounds parameter) := by
  have hproblem : ∀ p, o.problem? (.known parameter window) p
      = (m.excess? ⟨p.key, parameter p, p.phrase⟩).map .validateFailed := fun p => by
    unfold problem? OptionMap.excess?
    rw [value?_of_describes h]
    cases m.number? p.key with
    | none => rfl
    | some v =>
        by_cases hc : (parameter p).contains v = true
        · simp only [Limits.known, if_pos hc, Option.map_none]
        · simp only [Limits.known, if_neg hc, Option.map_some]
  have hfirst : Parameter.all.findSome? (o.problem? (.known parameter window))
      = ((bounds parameter).findSome? m.excess?).map .validateFailed := by
    rw [funext hproblem, bounds, List.findSome?_map, List.map_findSome?]
    rfl
  unfold validateWith OptionMap.verdict
  rw [hfirst]
  cases (bounds parameter).findSome? m.excess? with
  | none => rfl
  | some reason => rfl

/-- Maps that agree on the keys describe the same options. -/
theorem Describes.congr (h : o.Describes m) (hagree : ∀ k ∈ keys, m'.get? k.name = m.get? k.name) :
    o.Describes m' := by
  simp only [keys, Parameter.all, Parameter.key, sharedKeys, List.map_cons, List.map_nil,
    List.cons_append, List.nil_append, List.forall_mem_cons] at hagree
  cases h
  constructor
  case sourceBufferLength => simpa only [OptionMap.GivesLength, hagree]
  case destinationBufferLength => simpa only [OptionMap.GivesLength, hagree]
  case useGlobalLock => simpa only [OptionMap.GivesFlag, hagree]
  all_goals
    simp only [hagree]
    assumption

/-- **A map of options for a compressor** is refused for its first problem. -/
theorem ofMapWith_tellsFirst (parameter : Parameter → Interval) (window : Interval) :
    TellsFirst keys (bounds parameter) (ofMapWith (.known parameter window)) := by
  refine tellsFirst_of_tells (fun m => ?_) (fun b hb => ?_) (fun m m' o hagree h => ?_)
  · exact (resolve_reads m).tells fun o ho => validateWith_of_describes parameter window ho.2
  · obtain ⟨p, hp, rfl⟩ := List.mem_map.mp hb
    exact List.mem_append_left _ (List.mem_map.mpr ⟨p, hp, rfl⟩)
  · obtain ⟨hvalid, ho, hdescribes⟩ := ofMapWith_eq_ok_iff.mp h
    exact ofMapWith_eq_ok_iff.mpr ⟨hvalid, ho, hdescribes.congr hagree⟩

end CompressorOptions

namespace DecompressorOptions

variable {m m' : OptionMap} {o : DecompressorOptions}

/-- The bounds of the window limit. -/
def bounds (window : Interval) : List Bound := [⟨windowLogMaxKey, window, "window log max"⟩]

/-- Options are checked as the map is that describes them. -/
theorem validateWith_of_describes (parameter : Parameter → Interval) (window : Interval)
    (h : o.Describes m) :
    o.validateWith (.known parameter window) = m.verdict (bounds window) := by
  have hvalue := OptionMap.number?_of_get? (k := windowLogMaxKey) OptionValue.number?_ofWord32
    h.windowLogMax
  unfold validateWith OptionMap.verdict bounds
  simp only [List.findSome?_cons, List.findSome?_nil, OptionMap.excess?, ← hvalue]
  cases o.windowLogMax with
  | none => rfl
  | some v =>
      by_cases hc : window.contains v.toNat = true
      · simp only [Limits.known, Option.map_some, if_pos hc]
      · simp only [Limits.known, Option.map_some, if_neg hc]
        rfl

/-- Maps that agree on the keys describe the same options. -/
theorem Describes.congr (h : o.Describes m) (hagree : ∀ k ∈ keys, m'.get? k.name = m.get? k.name) :
    o.Describes m' := by
  simp only [keys, windowLogMaxKey, sharedKeys, List.forall_mem_cons] at hagree
  cases h
  constructor
  case windowLogMax => simpa only [hagree]
  case dictionary => simpa only [hagree]
  case sourceBufferLength => simpa only [OptionMap.GivesLength, hagree]
  case destinationBufferLength => simpa only [OptionMap.GivesLength, hagree]
  case useGlobalLock => simpa only [OptionMap.GivesFlag, hagree]

/-- **A map of options for a decompressor** is refused for its first problem. -/
theorem ofMapWith_tellsFirst (parameter : Parameter → Interval) (window : Interval) :
    TellsFirst keys (bounds window) (ofMapWith (.known parameter window)) := by
  refine tellsFirst_of_tells (fun m => ?_) (fun b hb => ?_) (fun m m' o hagree h => ?_)
  · exact (resolve_reads m).tells fun o ho => validateWith_of_describes parameter window ho.2
  · rw [List.mem_singleton.mp hb]
    exact List.mem_cons_self
  · obtain ⟨hvalid, ho, hdescribes⟩ := ofMapWith_eq_ok_iff.mp h
    exact ofMapWith_eq_ok_iff.mpr ⟨hvalid, ho, hdescribes.congr hagree⟩

end DecompressorOptions

/-- **Maps are refused for their first problem**, whatever the bounds of the parameters are. -/
theorem maps_are_refused_for_the_first_problem (parameter : Parameter → Interval)
    (window : Interval) :
    TellsFirst CompressorOptions.keys (CompressorOptions.bounds parameter)
        (CompressorOptions.ofMapWith (.known parameter window))
      ∧ TellsFirst DecompressorOptions.keys (DecompressorOptions.bounds window)
        (DecompressorOptions.ofMapWith (.known parameter window)) :=
  ⟨CompressorOptions.ofMapWith_tellsFirst parameter window,
    DecompressorOptions.ofMapWith_tellsFirst parameter window⟩

namespace Mistaken

/-- A flag that is a number, a strategy that is not known, and a window that is out of bounds. -/
def keys : OptionMap :=
  [("checksumFlag", .integer 1), ("strategy", .symbol "fastest"), ("windowLog", .integer 99)]

/-- A name that is no key, and two logarithms that are out of bounds. -/
def bounds : OptionMap :=
  [("level", .bool true), ("chainLog", .integer 99), ("windowLog", .integer 99)]

/-- A flag that is a number, and a window that is negative. -/
def window : OptionMap := [("useGlobalLock", .integer 1), ("windowLogMax", .integer (-1))]

end Mistaken

/-- The strategy is told before the flag that is resolved behind it, and before the window, which is
resolved first and checked against its bounds last. The window is told before the chain, whatever
their order in the map is. -/
theorem maps_are_refused_for_the_first_problem_of_several :
    CompressorOptions.ofMap Mistaken.keys = .error (.validateFailed "invalid strategy")
      ∧ CompressorOptions.ofMap Mistaken.bounds = .error (.validateFailed "invalid window log")
      ∧ CompressorOptions.ofMap Mistaken.bounds = CompressorOptions.ofMap Mistaken.bounds.tail
      ∧ DecompressorOptions.ofMap Mistaken.window
        = .error (.validateFailed "invalid not negative integer: windowLogMax") := by
  obtain ⟨hcompressor, hdecompressor⟩ :=
    maps_are_refused_for_the_first_problem Parameter.interval ⟨10, 31⟩
  refine ⟨?_, ?_, ?_, ?_⟩
  · exact hcompressor.problem_first Mistaken.keys (CompressorOptions.keys.take 7)
      ⟨"strategy", .strategy⟩ (CompressorOptions.keys.drop 8) .symbol rfl (by decide) (by decide)
  · -- no shape is wrong, and of the parameters only the level comes before the window
    have hlevel : ¬Mistaken.bounds.IsOutside
        ⟨⟨"compressionLevel", .int32⟩, ⟨-131072, 22⟩, "compression level"⟩ :=
      OptionMap.excess?_eq_none.mp rfl
    exact hcompressor.bound_next Mistaken.bounds [_]
      ⟨⟨"windowLog", .word32⟩, ⟨10, 31⟩, "window log"⟩ _ (by decide) rfl
      (List.forall_mem_singleton.mpr hlevel) ⟨99, rfl, rfl⟩
  · have hother : ∀ k ∈ CompressorOptions.keys, (k.name == "level") = false := by decide
    refine hcompressor.unread Mistaken.bounds.tail Mistaken.bounds fun k hk => ?_
    unfold OptionMap.get? Mistaken.bounds
    rw [List.lookup_cons, hother k hk]
    rfl
  · exact hdecompressor.problem_first Mistaken.window [] windowLogMaxKey sharedKeys .sign rfl
      (by decide) (by decide)

end Zstandard
