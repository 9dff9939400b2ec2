import Mathlib.Data.List.Basic
import Mathlib.Data.Option.Basic
import Zstandard.Proofs.OptionKeys
import Zstandard.Proofs.Validity

/-!
# Two views of options

Options are a record of fields, or a map from keys to values. From a map come just the options that
it describes, if they are valid (`ofMapWith_eq_ok_iff`), and valid options whose sizes an integer
can hold come from a map of their own (`ofMapWith_ofEntries`).

A third view is the list of parameters that the library is told. Its words are the values of the
fields that are present: what is within bounds that are words is not cut off
(`parameters_eq_settings`).
-/

namespace Zstandard

/-! ## What is written is read back -/

namespace OptionValue

variable {z w : Int}

theorem toInt_ofInt (hz : -2 ^ 63 ≤ z ∧ z < 2 ^ 63) : (Int64.ofInt z).toInt = z :=
  Int64.toInt_ofInt_of_le hz.1 hz.2

theorem eq_of_ofInt_eq (hz : -2 ^ 63 ≤ z ∧ z < 2 ^ 63) (hw : -2 ^ 63 ≤ w ∧ w < 2 ^ 63)
    (h : ofInt z = ofInt w) : z = w := by
  rw [← toInt_ofInt hz, ← toInt_ofInt hw]
  exact congrArg Int64.toInt (integer.inj h)

theorem problem?_ofInt (shape : Shape) (hz : -2 ^ 63 ≤ z ∧ z < 2 ^ 63) :
    shape.problem? (ofInt z) = shape.misfit? z := by
  cases shape
  all_goals simp only [Shape.problem?, ofInt, toInt_ofInt hz]

/-- The bounds of an integer of 32 bits are within those of a value. -/
theorem int32_bounds (v : Int32) : -2 ^ 63 ≤ v.toInt ∧ v.toInt < 2 ^ 63 := by
  have := v.le_toInt
  have := v.toInt_lt
  omega

theorem word32_bounds (v : UInt32) : -2 ^ 63 ≤ (v.toNat : Int) ∧ (v.toNat : Int) < 2 ^ 63 := by
  have := v.toNat_lt
  omega

theorem word64_bounds {v : UInt64} (h : v.toNat < 2 ^ 63) :
    -2 ^ 63 ≤ (v.toNat : Int) ∧ (v.toNat : Int) < 2 ^ 63 := by
  omega

end OptionValue

namespace OptionMap

variable {m : OptionMap} {name : String}

/-- **A getter gives back what is written** under its key, if that is of the right shape. -/
theorem Reads.eq_ok {α : Type} {k : OptionKey} {result : Except Error (Option α)}
    {P : Option α → Prop} {write : α → OptionValue} {x : Option α} (h : m.Reads [k] result P)
    (hx : m.get? k.name = x.map write) (hfine : ∀ a, x = some a → k.shape.problem? (write a) = none)
    (hunique : ∀ y, P y → x.map write = m.get? k.name → y = x) : result = .ok x := by
  have hcomplaint : m.complaint? k = none := by
    unfold complaint? problem?
    cases x with
    | none => rw [hx]; rfl
    | some a => rw [hx, Option.map_some]; simp only [hfine a rfl, Option.map_none]
  unfold Reads at h
  simp only [List.findSome?_cons, hcomplaint, List.findSome?_nil] at h
  obtain ⟨y, hresult, hy⟩ := h
  rw [hresult, hunique y hy hx.symm]

theorem bool?_of_get? {x : Option Bool} (h : m.get? name = x.map .bool) :
    m.bool? name = .ok x := by
  refine (m.bool?_reads name).eq_ok h (fun _ _ => rfl) fun y hy hx => ?_
  exact Option.map_injective (fun _ _ => OptionValue.bool.inj) (hy.symm.trans hx.symm)

theorem dictionary?_of_get? {x : Option Dictionary} (h : m.get? name = x.map .dictionary) :
    m.dictionary? name = .ok x := by
  refine (m.dictionary?_reads name).eq_ok h (fun _ _ => rfl) fun y hy hx => ?_
  exact Option.map_injective (fun _ _ => OptionValue.dictionary.inj) (hy.symm.trans hx.symm)

theorem strategy?_of_get? {x : Option Strategy} (h : m.get? name = x.map .ofStrategy) :
    m.strategy? name = .ok x := by
  refine (m.strategy?_reads name).eq_ok h (fun s _ => ?_) fun y hy hx => ?_
  · exact if_pos (List.mem_map.mpr ⟨s, s.mem_all, rfl⟩)
  · have hinj : Function.Injective OptionValue.ofStrategy := fun s t hst => by
      -- a name is read back to one strategy alone
      have hname := congrArg Strategy.ofName? (OptionValue.symbol.inj hst)
      rw [Strategy.ofName?_name, Strategy.ofName?_name] at hname
      exact Except.ok.inj hname
    exact Option.map_injective hinj (hy.symm.trans hx.symm)

theorem int32?_of_get? {x : Option Int32} (h : m.get? name = x.map .ofInt32) :
    m.int32? name = .ok x := by
  refine (m.int32?_reads name).eq_ok h (fun v _ => ?_) fun y hy hx => ?_
  · rw [OptionValue.ofInt32, OptionValue.problem?_ofInt _ (OptionValue.int32_bounds v)]
    exact if_pos ⟨v.le_toInt, v.toInt_lt⟩
  · have hinj : Function.Injective OptionValue.ofInt32 := fun v w hvw =>
      Int32.toInt_inj.mp (OptionValue.eq_of_ofInt_eq (OptionValue.int32_bounds v)
        (OptionValue.int32_bounds w) hvw)
    exact Option.map_injective hinj (hy.symm.trans hx.symm)

theorem word32?_of_get? {x : Option UInt32} (h : m.get? name = x.map .ofWord32) :
    m.word32? name = .ok x := by
  refine (m.word32?_reads name).eq_ok h (fun v _ => ?_) fun y hy hx => ?_
  · have hv := v.toNat_lt
    rw [OptionValue.ofWord32, OptionValue.problem?_ofInt _ (OptionValue.word32_bounds v),
      Shape.misfit?, if_neg (by omega), if_pos (by omega)]
  · have hinj : Function.Injective OptionValue.ofWord32 := fun v w hvw => by
      have := OptionValue.eq_of_ofInt_eq (OptionValue.word32_bounds v)
        (OptionValue.word32_bounds w) hvw
      exact UInt32.toNat_inj.mp (by omega)
    exact Option.map_injective hinj (hy.symm.trans hx.symm)

theorem word64?_of_get? {x : Option UInt64} (hx : ∀ v, x = some v → v.toNat < 2 ^ 63)
    (h : m.get? name = x.map .ofWord64) : m.word64? name = .ok x := by
  refine (m.word64?_reads name).eq_ok h (fun v hv => ?_) fun y hy hget => ?_
  · rw [OptionValue.ofWord64, OptionValue.problem?_ofInt _ (OptionValue.word64_bounds (hx v hv)),
      Shape.misfit?, if_neg (by omega)]
  · obtain ⟨hsmall, hy⟩ := hy
    have heq := hget.trans hy
    cases x with
    | none =>
        cases y with
        | none => rfl
        | some w => cases heq
    | some v =>
        cases y with
        | none => cases heq
        | some w =>
            have := OptionValue.eq_of_ofInt_eq (OptionValue.word64_bounds (hx v rfl))
              (OptionValue.word64_bounds (hsmall w rfl)) (Option.some.inj heq)
            rw [UInt64.toNat_inj.mp (show w.toNat = v.toNat by omega)]

theorem length_of_gives {n : UInt64} (hn : n.toNat < 2 ^ 63) (h : m.GivesLength name n) :
    m.length name = .ok n := by
  rcases h with h | ⟨rfl, h⟩
  · have hword := m.word64?_of_get? (x := some n) (fun v hv => by cases hv; exact hn) h
    simp only [length, hword, Option.getD_some]
  · have hword := m.word64?_of_get? (x := none) (fun v hv => by cases hv) h
    simp only [length, hword, Option.getD_none]

theorem flag_of_gives {b : Bool} (h : m.GivesFlag name b) : m.flag name = .ok b := by
  rcases h with h | ⟨rfl, h⟩
  · simp only [flag, m.bool?_of_get? (x := some b) h, Option.getD_some]
  · simp only [flag, m.bool?_of_get? (x := none) h, Option.getD_none]

end OptionMap

/-! ## Maps and records -/

/-- The map with the values that are present. -/
def OptionMap.ofEntries (entries : List (String × Option OptionValue)) : OptionMap :=
  entries.filterMap fun e => e.2.map fun v => (e.1, v)

/-- Under keys that are all different stands what was put there. -/
theorem OptionMap.get?_ofEntries {entries : List (String × Option OptionValue)}
    (h : (entries.map Prod.fst).Nodup) (name : String) :
    (ofEntries entries).get? name = (entries.lookup name).join := by
  induction entries with
  | nil => rfl
  | cons e rest ih =>
      obtain ⟨key, v⟩ := e
      obtain ⟨hkey, hrest⟩ := List.nodup_cons.mp h
      specialize ih hrest
      unfold get? ofEntries at ih ⊢
      cases v with
      | some v =>
          by_cases hname : name = key
          · subst hname
            simp
          · have hne : (name == key) = false := by simpa using hname
            rw [List.lookup_cons, hne, ← ih]
            simp [List.lookup_cons, hne]
      | none =>
          by_cases hname : name = key
          · -- the key stands nowhere else
            subst hname
            have hnone : rest.lookup name = none := by
              refine List.lookup_eq_none_iff.mpr fun e he => ?_
              have : name ≠ e.1 := fun heq => hkey (List.mem_map.mpr ⟨e, he, heq.symm⟩)
              simpa using this
            rw [hnone] at ih
            simpa using ih
          · have hne : (name == key) = false := by simpa using hname
            rw [List.lookup_cons, hne, ← ih]
            simp

section Checked

variable {ο : Type} {resolved : Except Error ο} {validate : ο → Except Error Unit} {o : ο}
  {e : Error}

/-- What is checked after it was resolved comes through if it is valid. -/
theorem checked_eq_ok_iff :
    (do let o ← resolved; validate o; return o) = Except.ok o
      ↔ resolved = .ok o ∧ validate o = .ok () := by
  cases resolved with
  | error e => exact ⟨nofun, nofun⟩
  | ok o' =>
      cases hvalid : validate o' with
      | error e =>
          refine ⟨fun h => ?_, fun ⟨ho, h⟩ => ?_⟩
          · simp only [bind, Except.bind, hvalid] at h
            cases h
          · cases ho
            rw [hvalid] at h
            cases h
      | ok _ =>
          refine ⟨fun h => ?_, fun ⟨ho, _⟩ => ?_⟩
          · simp only [bind, Except.bind, hvalid] at h
            cases h
            exact ⟨rfl, hvalid⟩
          · cases ho
            simp only [bind, Except.bind, hvalid]
            rfl

/-- It fails where it is not resolved, or is not valid. -/
theorem checked_eq_error_iff :
    (do let o ← resolved; validate o; return o) = Except.error e
      ↔ resolved = .error e ∨ ∃ o, resolved = .ok o ∧ validate o = .error e := by
  cases resolved with
  | error e' => exact ⟨.inl, fun h => h.resolve_right nofun⟩
  | ok o' =>
      cases hvalid : validate o' with
      | error e' =>
          simp only [bind, Except.bind, hvalid]
          refine ⟨fun h => ?_, fun h => ?_⟩
          · cases h
            exact .inr ⟨o', rfl, hvalid⟩
          · obtain ⟨o, ho, he⟩ := h.resolve_left nofun
            cases ho
            cases hvalid.symm.trans he
            rfl
      | ok _ =>
          simp only [bind, Except.bind, hvalid]
          refine ⟨nofun, fun h => ?_⟩
          obtain ⟨o, ho, he⟩ := h.resolve_left nofun
          cases ho
          cases hvalid.symm.trans he

/-- What comes through is just what is described and valid, if what is described is resolved. -/
theorem OptionMap.Reads.checked_eq_ok_iff {m : OptionMap} {keys : List OptionKey} {P : ο → Prop}
    (h : m.Reads keys resolved P) (hunique : ∀ o, P o → resolved = .ok o) :
    (do let o ← resolved; validate o; return o) = Except.ok o ↔ validate o = .ok () ∧ P o := by
  refine Zstandard.checked_eq_ok_iff.trans ⟨fun ⟨hresolved, hvalid⟩ => ⟨hvalid, ?_⟩,
    fun ⟨hvalid, ho⟩ => ⟨hunique o ho, hvalid⟩⟩
  unfold Reads at h
  split at h
  · cases hresolved.symm.trans h
  · obtain ⟨o', ho', hP⟩ := h
    cases hresolved.symm.trans ho'
    exact hP

end Checked

namespace CompressorOptions

variable {m : OptionMap} {o : CompressorOptions} {limits : Limits}

theorem resolve_of_describes (ho : o.Mappable) (h : o.Describes m) : resolve m = .ok o := by
  simp only [resolve, m.int32?_of_get? h.compressionLevel, m.word32?_of_get? h.windowLog,
    m.word32?_of_get? h.hashLog, m.word32?_of_get? h.chainLog, m.word32?_of_get? h.searchLog,
    m.word32?_of_get? h.minMatch, m.word32?_of_get? h.targetLength,
    m.strategy?_of_get? h.strategy, m.bool?_of_get? h.enableLongDistanceMatching,
    m.word32?_of_get? h.ldmHashLog, m.word32?_of_get? h.ldmMinMatch,
    m.word32?_of_get? h.ldmBucketSizeLog, m.word32?_of_get? h.ldmHashRateLog,
    m.bool?_of_get? h.contentSizeFlag, m.bool?_of_get? h.checksumFlag,
    m.bool?_of_get? h.dictIdFlag, m.word32?_of_get? h.nbWorkers, m.word32?_of_get? h.jobSize,
    m.word32?_of_get? h.overlapLog, m.word64?_of_get? ho.pledgedSize h.pledgedSize,
    m.dictionary?_of_get? h.dictionary,
    m.length_of_gives ho.sourceBufferLength h.sourceBufferLength,
    m.length_of_gives ho.destinationBufferLength h.destinationBufferLength,
    m.flag_of_gives h.useGlobalLock]
  rfl

/-- **From a map come just the options it describes**, if they are valid. -/
theorem ofMapWith_eq_ok_iff :
    ofMapWith limits m = .ok o ↔ o.validateWith limits = .ok () ∧ o.Mappable ∧ o.Describes m :=
  (resolve_reads m).checked_eq_ok_iff fun _ ho => resolve_of_describes ho.1 ho.2

/-- The fields under their keys. -/
def entries (o : CompressorOptions) : List (String × Option OptionValue) :=
  [("compressionLevel", o.compressionLevel.map .ofInt32),
   ("windowLog", o.windowLog.map .ofWord32),
   ("hashLog", o.hashLog.map .ofWord32),
   ("chainLog", o.chainLog.map .ofWord32),
   ("searchLog", o.searchLog.map .ofWord32),
   ("minMatch", o.minMatch.map .ofWord32),
   ("targetLength", o.targetLength.map .ofWord32),
   ("strategy", o.strategy.map .ofStrategy),
   ("enableLongDistanceMatching", o.enableLongDistanceMatching.map .bool),
   ("ldmHashLog", o.ldmHashLog.map .ofWord32),
   ("ldmMinMatch", o.ldmMinMatch.map .ofWord32),
   ("ldmBucketSizeLog", o.ldmBucketSizeLog.map .ofWord32),
   ("ldmHashRateLog", o.ldmHashRateLog.map .ofWord32),
   ("contentSizeFlag", o.contentSizeFlag.map .bool),
   ("checksumFlag", o.checksumFlag.map .bool),
   ("dictIdFlag", o.dictIdFlag.map .bool),
   ("nbWorkers", o.nbWorkers.map .ofWord32),
   ("jobSize", o.jobSize.map .ofWord32),
   ("overlapLog", o.overlapLog.map .ofWord32),
   ("pledgedSize", o.pledgedSize.map .ofWord64),
   ("dictionary", o.dictionary.map .dictionary),
   ("sourceBufferLength", some (.ofWord64 o.sourceBufferLength)),
   ("destinationBufferLength", some (.ofWord64 o.destinationBufferLength)),
   ("useGlobalLock", some (.bool o.useGlobalLock))]

theorem nodup_keys : (keys.map OptionKey.name).Nodup := by decide

/-- **Every options are described** by a map of their own. -/
theorem describes_ofEntries (o : CompressorOptions) : o.Describes (.ofEntries o.entries) := by
  have hnodup : (o.entries.map Prod.fst).Nodup := nodup_keys
  have hget := OptionMap.get?_ofEntries hnodup
  constructor
  case sourceBufferLength => exact .inl (hget _)
  case destinationBufferLength => exact .inl (hget _)
  case useGlobalLock => exact .inl (hget _)
  all_goals
    rw [hget]
    rfl

/-- Valid options come back from their own map. -/
theorem ofMapWith_ofEntries (hvalid : o.validateWith limits = .ok ()) (ho : o.Mappable) :
    ofMapWith limits (.ofEntries o.entries) = .ok o :=
  ofMapWith_eq_ok_iff.mpr ⟨hvalid, ho, o.describes_ofEntries⟩

/-- The parameters that are present and their values, in the order they are applied. -/
def settings (o : CompressorOptions) : List (Parameter × Int) :=
  List.filterMap (fun s => s.2.map fun v => (s.1, v))
    [(.compressionLevel, o.compressionLevel.map Int32.toInt),
     (.windowLog, o.windowLog.map (·.toNat)),
     (.hashLog, o.hashLog.map (·.toNat)),
     (.chainLog, o.chainLog.map (·.toNat)),
     (.searchLog, o.searchLog.map (·.toNat)),
     (.minMatch, o.minMatch.map (·.toNat)),
     (.targetLength, o.targetLength.map (·.toNat)),
     (.strategy, o.strategy.map (·.number)),
     (.enableLongDistanceMatching, o.enableLongDistanceMatching.map (·.toNat)),
     (.ldmHashLog, o.ldmHashLog.map (·.toNat)),
     (.ldmMinMatch, o.ldmMinMatch.map (·.toNat)),
     (.ldmBucketSizeLog, o.ldmBucketSizeLog.map (·.toNat)),
     (.ldmHashRateLog, o.ldmHashRateLog.map (·.toNat)),
     (.contentSizeFlag, o.contentSizeFlag.map (·.toNat)),
     (.checksumFlag, o.checksumFlag.map (·.toNat)),
     (.dictIdFlag, o.dictIdFlag.map (·.toNat)),
     (.nbWorkers, o.nbWorkers.map (·.toNat)),
     (.jobSize, o.jobSize.map (·.toNat)),
     (.overlapLog, o.overlapLog.map (·.toNat))]

/-- **The library is told the values as they are**, whatever words bound them. -/
theorem parameters_eq_settings (hlimits : limits.AreWords)
    (hvalid : o.validateWith limits = .ok ()) :
    o.parameters.map (fun s => (s.1, s.2.toInt)) = o.settings := by
  have hsettings : o.settings = Parameter.all.filterMap fun p => (o.value? p).map fun v => (p, v) :=
    rfl
  rw [hsettings, parameters, List.map_filterMap]
  refine List.filterMap_congr fun p _ => ?_
  cases hv : o.value? p with
  | none => rfl
  | some v =>
      obtain ⟨i, hi, hcontains⟩ := validateWith_eq_ok_iff.mp hvalid p v hv
      simp only [Option.map_some, (hlimits.parameter p i hi).toInt hcontains]

end CompressorOptions

namespace DecompressorOptions

variable {m : OptionMap} {o : DecompressorOptions} {limits : Limits}

theorem resolve_of_describes (ho : o.Mappable) (h : o.Describes m) : resolve m = .ok o := by
  simp only [resolve, m.word32?_of_get? h.windowLogMax, m.dictionary?_of_get? h.dictionary,
    m.length_of_gives ho.sourceBufferLength h.sourceBufferLength,
    m.length_of_gives ho.destinationBufferLength h.destinationBufferLength,
    m.flag_of_gives h.useGlobalLock]
  rfl

/-- **From a map come just the options it describes**, if they are valid. -/
theorem ofMapWith_eq_ok_iff :
    ofMapWith limits m = .ok o ↔ o.validateWith limits = .ok () ∧ o.Mappable ∧ o.Describes m :=
  (resolve_reads m).checked_eq_ok_iff fun _ ho => resolve_of_describes ho.1 ho.2

/-- The fields under their keys. -/
def entries (o : DecompressorOptions) : List (String × Option OptionValue) :=
  [("windowLogMax", o.windowLogMax.map .ofWord32),
   ("dictionary", o.dictionary.map .dictionary),
   ("sourceBufferLength", some (.ofWord64 o.sourceBufferLength)),
   ("destinationBufferLength", some (.ofWord64 o.destinationBufferLength)),
   ("useGlobalLock", some (.bool o.useGlobalLock))]

theorem nodup_keys : (keys.map OptionKey.name).Nodup := by decide

/-- **Every options are described** by a map of their own. -/
theorem describes_ofEntries (o : DecompressorOptions) : o.Describes (.ofEntries o.entries) := by
  have hnodup : (o.entries.map Prod.fst).Nodup := nodup_keys
  have hget := OptionMap.get?_ofEntries hnodup
  constructor
  case windowLogMax => rw [hget]; rfl
  case dictionary => rw [hget]; rfl
  all_goals exact .inl (hget _)

/-- Valid options come back from their own map. -/
theorem ofMapWith_ofEntries (hvalid : o.validateWith limits = .ok ()) (ho : o.Mappable) :
    ofMapWith limits (.ofEntries o.entries) = .ok o :=
  ofMapWith_eq_ok_iff.mpr ⟨hvalid, ho, o.describes_ofEntries⟩

/-- The library is told the window limit as it is, whatever words bound it. -/
theorem windowLogWord_eq (hlimits : limits.AreWords) (hvalid : o.validateWith limits = .ok ()) :
    o.windowLogWord.map Int32.toInt = o.windowLogMax.map fun v => (v.toNat : Int) := by
  unfold windowLogWord
  cases hv : o.windowLogMax with
  | none => rfl
  | some v =>
      obtain ⟨i, hi, hcontains⟩ := validateWith_eq_ok_iff.mp hvalid v hv
      simp only [Option.map_some, (hlimits.windowLogMax i hi).toInt hcontains]

end DecompressorOptions

/-! ## Options and maps -/

/-- **Options and maps are two views.** From a map come just the options that are valid, whose sizes
an integer holds, and that the map describes; keys that are not known are not looked at. The library
is told the values of valid options as they are, each once and in order. -/
theorem options_and_maps_agree (limits : Limits) :
    (∀ m o, CompressorOptions.ofMapWith limits m = .ok o
      ↔ o.validateWith limits = .ok () ∧ o.Mappable ∧ o.Describes m)
    ∧ (∀ m o, DecompressorOptions.ofMapWith limits m = .ok o
      ↔ o.validateWith limits = .ok () ∧ o.Mappable ∧ o.Describes m)
    ∧ (limits.AreWords → ∀ o : CompressorOptions, o.validateWith limits = .ok () →
      o.parameters.map (fun s => (s.1, s.2.toInt)) = o.settings)
    ∧ (limits.AreWords → ∀ o : DecompressorOptions, o.validateWith limits = .ok () →
      o.windowLogWord.map Int32.toInt = o.windowLogMax.map fun v => (v.toNat : Int)) :=
  ⟨fun _ _ => CompressorOptions.ofMapWith_eq_ok_iff,
    fun _ _ => DecompressorOptions.ofMapWith_eq_ok_iff,
    fun hlimits _ => CompressorOptions.parameters_eq_settings hlimits,
    fun hlimits _ => DecompressorOptions.windowLogWord_eq hlimits⟩

namespace FastLevel

/-- A level below 0, and the largest pledge that a map can hold. -/
def options : CompressorOptions :=
  { compressionLevel := some (-5), strategy := some .dfast, checksumFlag := some true,
    pledgedSize := some 9223372036854775807 }

/-- The map for them, with a key that is not known. -/
def map : OptionMap :=
  [("pledgedSize", .integer 9223372036854775807), ("checksumFlag", .bool true),
   ("windowlog", .symbol "unknown"), ("strategy", .symbol "dfast"),
   ("compressionLevel", .integer (-5)), ("sourceBufferLength", .integer 0)]

end FastLevel

/-- The level is told to the library with its sign, and the pledge is kept. -/
theorem options_and_maps_agree_for_fast_level :
    CompressorOptions.ofMap FastLevel.map = .ok FastLevel.options
      ∧ FastLevel.options.parameters.map (fun s => (s.1, s.2.toInt))
        = [(.compressionLevel, -5), (.strategy, 2), (.checksumFlag, 1)]
      ∧ ({ windowLogMax := some 27 } : DecompressorOptions).windowLogWord.map Int32.toInt
        = some 27 := by
  obtain ⟨hmap, -, hparameters, hwindow⟩ := options_and_maps_agree Limits.library
  refine ⟨(hmap _ _).mpr ⟨rfl, ⟨?_, by decide, by decide⟩, ?_⟩,
    hparameters Limits.library_areWords FastLevel.options rfl,
    hwindow Limits.library_areWords { windowLogMax := some 27 } rfl⟩
  · intro size h
    cases h
    decide
  · constructor
    case sourceBufferLength => exact .inl rfl
    case destinationBufferLength => exact .inr ⟨rfl, rfl⟩
    case useGlobalLock => exact .inr ⟨rfl, rfl⟩
    all_goals rfl

end Zstandard
