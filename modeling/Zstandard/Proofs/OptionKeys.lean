import Zstandard.Options.Map

/-!
# Keys of option maps

Each field of options has a key, and the key has a shape: what a value under it has to be. A value
may be wrong in four ways (`Problem`), and each is told in a text of its own.

* A getter gives the field a value stands for, or tells what is wrong with it (`Reads`, with one law
  for each shape).
* Options are resolved key by key, so the first thing wrong is what is told (`Reads.bind`).
* What is resolved is what the map describes (`Describes`): each field stands under its key as it
  is, and is missing where it is absent.
-/

namespace Zstandard

/-! ## Values -/

namespace OptionValue

/-- An integer as a value. -/
def ofInt (z : Int) : OptionValue := .integer (Int64.ofInt z)

/-- An integer of 32 bits with a sign as a value. -/
def ofInt32 (v : Int32) : OptionValue := ofInt v.toInt

/-- An integer of 32 bits without a sign as a value. -/
def ofWord32 (v : UInt32) : OptionValue := ofInt v.toNat

/-- An integer of 64 bits without a sign as a value; it has to be below 2^63. -/
def ofWord64 (v : UInt64) : OptionValue := ofInt v.toNat

/-- A strategy as a value. -/
def ofStrategy (s : Strategy) : OptionValue := .symbol s.name

theorem ofInt_toInt (i : Int64) : ofInt i.toInt = .integer i :=
  congrArg OptionValue.integer (Int64.ofInt_toInt i)

end OptionValue

theorem Strategy.mem_all (s : Strategy) : s ∈ Strategy.all := by
  cases s <;> decide

/-- A name that is not read is that of no strategy. -/
theorem Strategy.ofName?_eq_error {name : String} (h : name ∉ all.map Strategy.name) :
    ofName? name = .error (.validateFailed "invalid strategy") := by
  unfold ofName?
  split
  · next s hfind =>
    have hname : s.name = name :=
      beq_iff_eq.mp (List.find?_some (p := fun t : Strategy => t.name == name) hfind)
    exact absurd (List.mem_map.mpr ⟨s, s.mem_all, hname⟩) h
  · rfl

/-! ## Shapes and problems -/

/-- What a value under a key has to be. -/
inductive Shape where
  | flag
  /-- An integer of 32 bits with a sign. -/
  | int32
  /-- An integer of 32 bits without a sign. -/
  | word32
  /-- An integer that is not negative. -/
  | word64
  | strategy
  | dictionary
  deriving DecidableEq

/-- What is wrong with a value. -/
inductive Problem where
  /-- It is of another kind. -/
  | shape
  /-- It is negative. -/
  | sign
  /-- It does not fit the field. -/
  | width
  /-- It is the name of nothing. -/
  | symbol
  deriving DecidableEq

/-- What is wrong with an integer where a value of the given shape has to be, if anything is. -/
def Shape.misfit? : Shape → Int → Option Problem
  | .int32, z => if -2 ^ 31 ≤ z ∧ z < 2 ^ 31 then none else some .width
  | .word32, z => if z < 0 then some .sign else if z < 2 ^ 32 then none else some .width
  | .word64, z => if z < 0 then some .sign else none
  | _, _ => some .shape

/-- What is wrong with a value where one of the given shape has to be, if anything is. -/
def Shape.problem? : Shape → OptionValue → Option Problem
  | .flag, .bool _ => none
  | .strategy, .symbol name => if name ∈ Strategy.all.map Strategy.name then none else some .symbol
  | .dictionary, .dictionary _ => none
  | shape, .integer i => shape.misfit? i.toInt
  | _, _ => some .shape

/-- A key of a map of options. -/
structure OptionKey where
  name : String
  shape : Shape
  deriving DecidableEq

/-- The text for a value of another kind under a key. -/
def OptionKey.misshapen (k : OptionKey) : String :=
  match k.shape with
  | .flag => "invalid bool: " ++ k.name
  | .int32 | .word32 | .word64 => "invalid integer: " ++ k.name
  | .strategy => "invalid symbol: " ++ k.name
  | .dictionary => "invalid dictionary"

/-- The text for what is wrong with a value under a key. -/
def OptionKey.reason (k : OptionKey) : Problem → String
  | .shape => k.misshapen
  | .sign => "invalid not negative integer: " ++ k.name
  | .width => "invalid " ++ k.name
  | .symbol => "invalid strategy"

namespace OptionMap

variable {m : OptionMap}

/-- What is wrong with the value under a key, if there is one and anything is. -/
def problem? (m : OptionMap) (k : OptionKey) : Option Problem :=
  match m.get? k.name with
  | none => none
  | some v => k.shape.problem? v

/-- What is told about the value under a key, if anything is wrong with it. -/
def complaint? (m : OptionMap) (k : OptionKey) : Option String := (m.problem? k).map k.reason

/-- `result` is what is told first about the values under `keys`, or a value of which `P` holds. -/
def Reads {α : Type} (m : OptionMap) (keys : List OptionKey) (result : Except Error α)
    (P : α → Prop) : Prop :=
  match keys.findSome? m.complaint? with
  | some reason => result = .error (.validateFailed reason)
  | none => ∃ a, result = .ok a ∧ P a

theorem reads_pure {α : Type} {a : α} {P : α → Prop} (h : P a) :
    m.Reads [] (pure a) P := ⟨a, rfl, h⟩

/-- **Key after key**, the first thing wrong is told. -/
theorem Reads.bind {α β : Type} {k : OptionKey} {keys : List OptionKey} {x : Except Error α}
    {f : α → Except Error β} {P : α → Prop} {Q : β → Prop} (hx : m.Reads [k] x P)
    (hf : ∀ a, P a → m.Reads keys (f a) Q) : m.Reads (k :: keys) (x >>= f) Q := by
  unfold Reads at hx ⊢
  rw [List.findSome?_cons] at hx ⊢
  cases hk : m.complaint? k with
  | some reason =>
      simp only [hk] at hx ⊢
      rw [hx]
      rfl
  | none =>
      simp only [hk, List.findSome?_nil] at hx ⊢
      obtain ⟨a, rfl, ha⟩ := hx
      exact hf a ha

/-- What is made of a value keeps what is told. -/
theorem Reads.imp {α β : Type} {keys : List OptionKey} {x : Except Error α} {y : Except Error β}
    {P : α → Prop} {Q : β → Prop} (h : m.Reads keys x P)
    (hok : ∀ a, x = .ok a → P a → ∃ b, y = .ok b ∧ Q b)
    (herror : ∀ e, x = .error e → y = .error e) : m.Reads keys y Q := by
  unfold Reads at h ⊢
  split at h
  · exact herror _ h
  · obtain ⟨a, hx, ha⟩ := h
    exact hok a hx ha

/-- A single key, by what stands under it. -/
theorem reads_key {α : Type} {k : OptionKey} {result : Except Error α} {P : α → Prop}
    (habsent : m.get? k.name = none → ∃ a, result = .ok a ∧ P a)
    (hfine : ∀ v, m.get? k.name = some v → k.shape.problem? v = none → ∃ a, result = .ok a ∧ P a)
    (hwrong : ∀ v p, m.get? k.name = some v → k.shape.problem? v = some p →
      result = .error (.validateFailed (k.reason p))) : m.Reads [k] result P := by
  unfold Reads complaint? problem?
  cases hv : m.get? k.name with
  | none => simpa [hv] using habsent hv
  | some v =>
      cases hp : k.shape.problem? v with
      | none => simpa [hv, hp] using hfine v hv hp
      | some p => simpa [hv, hp] using hwrong v p hv hp

/-- A single key, where a value is of the right kind or of another, and nothing else is wrong. -/
theorem reads_kind {α : Type} {k : OptionKey} {result : Except Error (Option α)}
    {write : α → OptionValue}
    (hkind : ∀ v, (∃ a, v = write a ∧ k.shape.problem? v = none) ∨ k.shape.problem? v = some .shape)
    (hread : ∀ x, m.get? k.name = x.map write → result = .ok x)
    (hother : ∀ v, m.get? k.name = some v → k.shape.problem? v = some .shape →
      result = .error (.validateFailed k.misshapen)) :
    m.Reads [k] result fun x => m.get? k.name = x.map write := by
  refine reads_key (fun h => ⟨none, hread none h, h⟩) (fun v h hp => ?_) (fun v p h hp => ?_)
  · rcases hkind v with ⟨a, rfl, -⟩ | hshape
    · exact ⟨some a, hread (some a) h, h⟩
    · cases hp.symm.trans hshape
  · rcases hkind v with ⟨a, -, hnone⟩ | hshape
    · cases hp.symm.trans hnone
    · cases hp.symm.trans hshape
      exact hother v h hshape

/-! ## Getters, one for each shape -/

section Getters

variable (m : OptionMap) (name : String)

theorem bool?_reads : m.Reads [⟨name, .flag⟩] (m.bool? name) fun x =>
    m.get? name = x.map .bool := by
  refine reads_kind (fun v => ?_) (fun x h => ?_) (fun v h hp => ?_)
  · cases v with
    | bool b => exact .inl ⟨b, rfl, rfl⟩
    | _ => exact .inr rfl
  · cases x with
    | none => simp only [bool?, h, Option.map_none]
    | some b => simp only [bool?, h, Option.map_some]
  · cases v with
    | bool b => cases hp
    | _ => simp only [bool?, h]; rfl

theorem dictionary?_reads : m.Reads [⟨name, .dictionary⟩] (m.dictionary? name) fun x =>
    m.get? name = x.map .dictionary := by
  refine reads_kind (fun v => ?_) (fun x h => ?_) (fun v h hp => ?_)
  · cases v with
    | dictionary d => exact .inl ⟨d, rfl, rfl⟩
    | _ => exact .inr rfl
  · cases x with
    | none => simp only [dictionary?, h, Option.map_none]
    | some d => simp only [dictionary?, h, Option.map_some]
  · cases v with
    | dictionary d => cases hp
    | _ => simp only [dictionary?, h]; rfl

theorem strategy?_reads : m.Reads [⟨name, .strategy⟩] (m.strategy? name) fun x =>
    m.get? name = x.map .ofStrategy := by
  refine reads_key (fun h => ⟨none, ?_, h⟩) (fun v h hp => ?_) (fun v p h hp => ?_)
  · simp only [strategy?, symbol?, h]
  · cases v with
    | symbol s =>
        by_cases hs : s ∈ Strategy.all.map Strategy.name
        · obtain ⟨strategy, -, rfl⟩ := List.mem_map.mp hs
          exact ⟨some strategy, by simp only [strategy?, symbol?, h, Strategy.ofName?_name], h⟩
        · simp only [Shape.problem?, if_neg hs] at hp
          cases hp
    | _ => simp [Shape.problem?, Shape.misfit?] at hp
  · cases v with
    | symbol s =>
        by_cases hs : s ∈ Strategy.all.map Strategy.name
        · simp only [Shape.problem?, if_pos hs] at hp
          cases hp
        · obtain rfl : Problem.symbol = p := by simpa only [Shape.problem?, if_neg hs,
            Option.some.injEq] using hp
          simp only [strategy?, symbol?, h, Strategy.ofName?_eq_error hs]
          rfl
    | _ =>
        obtain rfl : Problem.shape = p := by simpa [Shape.problem?, Shape.misfit?] using hp
        simp only [strategy?, symbol?, h]
        rfl

end Getters

/-! Integers. What is none is told by `integer?`; the rest is a matter of bounds. -/

theorem reads_integer {α : Type} {k : OptionKey} {result : Except Error α} {P : α → Prop}
    (hk : k.shape = .int32 ∨ k.shape = .word32 ∨ k.shape = .word64)
    (habsent : m.get? k.name = none → ∃ a, result = .ok a ∧ P a)
    (hfine : ∀ i, m.get? k.name = some (.integer i) → k.shape.misfit? i.toInt = none →
      ∃ a, result = .ok a ∧ P a)
    (hwrong : ∀ i p, m.get? k.name = some (.integer i) → k.shape.misfit? i.toInt = some p →
      result = .error (.validateFailed (k.reason p)))
    (hother : m.integer? k.name = .error (.validateFailed k.misshapen) →
      result = .error (.validateFailed k.misshapen)) : m.Reads [k] result P := by
  have hmisshapen : k.misshapen = "invalid integer: " ++ k.name := by
    obtain ⟨name, shape⟩ := k
    rcases hk with rfl | rfl | rfl
    all_goals rfl
  have hproblem : ∀ v p, m.get? k.name = some v → (∀ i, v ≠ .integer i) →
      k.shape.problem? v = some p →
      p = .shape ∧ m.integer? k.name = .error (.validateFailed k.misshapen) := by
    intro v p hv hne hp
    rw [hmisshapen]
    cases v with
    | integer i => exact absurd rfl (hne i)
    | _ =>
        refine ⟨?_, by simp only [integer?, hv]⟩
        rcases hk with hk | hk | hk
        all_goals
          rw [hk] at hp
          exact (Option.some.inj hp).symm
  refine reads_key habsent (fun v hv hp => ?_) (fun v p hv hp => ?_)
  · cases v with
    | integer i => exact hfine i hv (by simpa only [Shape.problem?] using hp)
    | _ =>
        rcases hk with hk | hk | hk
        all_goals
          rw [hk] at hp
          cases hp
  · by_cases hint : ∃ i, v = .integer i
    · obtain ⟨i, rfl⟩ := hint
      exact hwrong i p hv (by simpa only [Shape.problem?] using hp)
    · obtain ⟨rfl, herror⟩ := hproblem v p hv (fun i hi => hint ⟨i, hi⟩) hp
      exact hother herror

section Integers

variable (m : OptionMap) (name : String)

theorem int32?_reads : m.Reads [⟨name, .int32⟩] (m.int32? name) fun x =>
    m.get? name = x.map .ofInt32 := by
  refine reads_integer (.inl rfl) (fun h => ⟨none, ?_, h⟩) (fun i h hfit => ?_)
    (fun i p h hfit => ?_) (fun h => by simp only [int32?, h])
  · simp only [int32?, integer?, h]
  · by_cases hi : -2 ^ 31 ≤ i.toInt ∧ i.toInt < 2 ^ 31
    · have hfits : -2147483648 ≤ i.toInt ∧ i.toInt ≤ 2147483647 := by omega
      refine ⟨some (Int32.ofInt i.toInt), by simp only [int32?, integer?, h, if_pos hfits], ?_⟩
      rw [h, Option.map_some, OptionValue.ofInt32, Int32.toInt_ofInt_of_le hi.1 hi.2,
        OptionValue.ofInt_toInt]
    · rw [Shape.misfit?, if_neg hi] at hfit
      cases hfit
  · by_cases hi : -2 ^ 31 ≤ i.toInt ∧ i.toInt < 2 ^ 31
    · rw [Shape.misfit?, if_pos hi] at hfit
      cases hfit
    · have hfits : ¬(-2147483648 ≤ i.toInt ∧ i.toInt ≤ 2147483647) := by omega
      rw [Shape.misfit?, if_neg hi] at hfit
      obtain rfl := Option.some.inj hfit
      simp only [int32?, integer?, h, if_neg hfits]
      rfl

/-- An integer is a natural number unless it is negative. -/
theorem natural?_of_integer {i : Int64} (h : m.get? name = some (.integer i)) :
    m.natural? name = if i.toInt < 0
      then .error (.validateFailed ("invalid not negative integer: " ++ name))
      else .ok (some i.toInt.toNat) := by
  by_cases hneg : i.toInt < 0
  · have hnot : ¬0 ≤ i.toInt := by omega
    simp only [natural?, integer?, h, if_pos hneg, if_neg hnot]
  · have hnot : 0 ≤ i.toInt := by omega
    simp only [natural?, integer?, h, if_neg hneg, if_pos hnot]

theorem word32?_reads : m.Reads [⟨name, .word32⟩] (m.word32? name) fun x =>
    m.get? name = x.map .ofWord32 := by
  refine reads_integer (.inr (.inl rfl)) (fun h => ⟨none, ?_, h⟩) (fun i h hfit => ?_)
    (fun i p h hfit => ?_) (fun h => by simp only [word32?, natural?, h])
  · simp only [word32?, natural?, integer?, h]
  · have hnatural := natural?_of_integer m name h
    by_cases hneg : i.toInt < 0
    · rw [Shape.misfit?, if_pos hneg] at hfit
      cases hfit
    by_cases hi : i.toInt < 2 ^ 32
    · have hfits : i.toInt.toNat < 4294967296 := by omega
      have hword : (i.toInt.toNat.toUInt32.toNat : Int) = i.toInt := by
        rw [Nat.toUInt32, UInt32.toNat_ofNat', Nat.mod_eq_of_lt hfits]
        omega
      rw [if_neg hneg] at hnatural
      refine ⟨some i.toInt.toNat.toUInt32, by simp only [word32?, hnatural, if_pos hfits], ?_⟩
      rw [h, Option.map_some, OptionValue.ofWord32, hword, OptionValue.ofInt_toInt]
    · rw [Shape.misfit?, if_neg hneg, if_neg hi] at hfit
      cases hfit
  · have hnatural := natural?_of_integer m name h
    by_cases hneg : i.toInt < 0
    · rw [Shape.misfit?, if_pos hneg] at hfit
      obtain rfl := Option.some.inj hfit
      rw [if_pos hneg] at hnatural
      simp only [word32?, hnatural]
      rfl
    by_cases hi : i.toInt < 2 ^ 32
    · rw [Shape.misfit?, if_neg hneg, if_pos hi] at hfit
      cases hfit
    · have hfits : ¬i.toInt.toNat < 4294967296 := by omega
      rw [Shape.misfit?, if_neg hneg, if_neg hi] at hfit
      obtain rfl := Option.some.inj hfit
      rw [if_neg hneg] at hnatural
      simp only [word32?, hnatural, if_neg hfits]
      rfl

/-- An integer of 64 bits that is not negative fits without its sign. -/
theorem word64?_reads : m.Reads [⟨name, .word64⟩] (m.word64? name) fun x =>
    (∀ v, x = some v → v.toNat < 2 ^ 63) ∧ m.get? name = x.map .ofWord64 := by
  refine reads_integer (.inr (.inr rfl)) (fun h => ⟨none, ?_, nofun, h⟩) (fun i h hfit => ?_)
    (fun i p h hfit => ?_) (fun h => by simp only [word64?, natural?, h])
  · simp only [word64?, natural?, integer?, h, Option.map_none]
  · have hnatural := natural?_of_integer m name h
    by_cases hneg : i.toInt < 0
    · rw [Shape.misfit?, if_pos hneg] at hfit
      cases hfit
    · have hi := i.toInt_lt
      have hword : i.toInt.toNat.toUInt64.toNat = i.toInt.toNat := by
        rw [Nat.toUInt64, UInt64.toNat_ofNat', Nat.mod_eq_of_lt (by omega)]
      have hsame : (i.toInt.toNat.toUInt64.toNat : Int) = i.toInt := by omega
      rw [if_neg hneg] at hnatural
      refine ⟨some i.toInt.toNat.toUInt64, by simp only [word64?, hnatural, Option.map_some],
        fun v hv => ?_, ?_⟩
      · cases hv
        omega
      · rw [h, Option.map_some, OptionValue.ofWord64, hsame, OptionValue.ofInt_toInt]
  · have hnatural := natural?_of_integer m name h
    by_cases hneg : i.toInt < 0
    · rw [Shape.misfit?, if_pos hneg] at hfit
      obtain rfl := Option.some.inj hfit
      rw [if_pos hneg] at hnatural
      simp only [word64?, hnatural]
      rfl
    · rw [Shape.misfit?, if_neg hneg] at hfit
      cases hfit

/-! Lengths and the flag of the lock, which have a value where there is none in the map. -/

/-- A length stands under a key; nothing there stands for 0. -/
def GivesLength (length : UInt64) : Prop :=
  m.get? name = some (.ofWord64 length) ∨ length = 0 ∧ m.get? name = none

/-- A flag stands under a key; nothing there stands for false. -/
def GivesFlag (flag : Bool) : Prop :=
  m.get? name = some (.bool flag) ∨ flag = false ∧ m.get? name = none

theorem length_reads : m.Reads [⟨name, .word64⟩] (m.length name) fun length =>
    length.toNat < 2 ^ 63 ∧ m.GivesLength name length := by
  refine (m.word64?_reads name).imp (fun x hx ⟨hsmall, hget⟩ => ?_) (fun e he => ?_)
  · refine ⟨x.getD 0, by simp only [length, hx], ?_⟩
    cases x with
    | none => exact ⟨by decide, .inr ⟨rfl, hget⟩⟩
    | some v => exact ⟨hsmall v rfl, .inl hget⟩
  · simp only [length, he]

theorem flag_reads : m.Reads [⟨name, .flag⟩] (m.flag name) (m.GivesFlag name) := by
  refine (m.bool?_reads name).imp (fun x hx hget => ?_) (fun e he => ?_)
  · refine ⟨x.getD false, by simp only [flag, hx], ?_⟩
    cases x with
    | none => exact .inr ⟨rfl, hget⟩
    | some v => exact .inl hget
  · simp only [flag, he]

end Integers

end OptionMap

/-! ## The keys of options -/

/-- The key of a parameter of compression. -/
def Parameter.key : Parameter → OptionKey
  | .compressionLevel => ⟨"compressionLevel", .int32⟩
  | .windowLog => ⟨"windowLog", .word32⟩
  | .hashLog => ⟨"hashLog", .word32⟩
  | .chainLog => ⟨"chainLog", .word32⟩
  | .searchLog => ⟨"searchLog", .word32⟩
  | .minMatch => ⟨"minMatch", .word32⟩
  | .targetLength => ⟨"targetLength", .word32⟩
  | .strategy => ⟨"strategy", .strategy⟩
  | .enableLongDistanceMatching => ⟨"enableLongDistanceMatching", .flag⟩
  | .ldmHashLog => ⟨"ldmHashLog", .word32⟩
  | .ldmMinMatch => ⟨"ldmMinMatch", .word32⟩
  | .ldmBucketSizeLog => ⟨"ldmBucketSizeLog", .word32⟩
  | .ldmHashRateLog => ⟨"ldmHashRateLog", .word32⟩
  | .contentSizeFlag => ⟨"contentSizeFlag", .flag⟩
  | .checksumFlag => ⟨"checksumFlag", .flag⟩
  | .dictIdFlag => ⟨"dictIdFlag", .flag⟩
  | .nbWorkers => ⟨"nbWorkers", .word32⟩
  | .jobSize => ⟨"jobSize", .word32⟩
  | .overlapLog => ⟨"overlapLog", .word32⟩

/-- The keys that both kinds of options have, in the order they are resolved. -/
def sharedKeys : List OptionKey :=
  [⟨"dictionary", .dictionary⟩, ⟨"sourceBufferLength", .word64⟩,
   ⟨"destinationBufferLength", .word64⟩, ⟨"useGlobalLock", .flag⟩]

/-- The keys of what a compressor is asked for, in the order they are resolved. -/
def CompressorOptions.keys : List OptionKey :=
  Parameter.all.map Parameter.key ++ ⟨"pledgedSize", .word64⟩ :: sharedKeys

/-- The key of the window limit. -/
def windowLogMaxKey : OptionKey := ⟨"windowLogMax", .word32⟩

/-- The keys of what a decompressor is asked for, in the order they are resolved. -/
def DecompressorOptions.keys : List OptionKey := windowLogMaxKey :: sharedKeys

/-! ## What a map describes -/

namespace CompressorOptions

/-- Each field stands under its key. -/
structure Describes (m : OptionMap) (o : CompressorOptions) : Prop where
  compressionLevel : m.get? "compressionLevel" = o.compressionLevel.map .ofInt32
  windowLog : m.get? "windowLog" = o.windowLog.map .ofWord32
  hashLog : m.get? "hashLog" = o.hashLog.map .ofWord32
  chainLog : m.get? "chainLog" = o.chainLog.map .ofWord32
  searchLog : m.get? "searchLog" = o.searchLog.map .ofWord32
  minMatch : m.get? "minMatch" = o.minMatch.map .ofWord32
  targetLength : m.get? "targetLength" = o.targetLength.map .ofWord32
  strategy : m.get? "strategy" = o.strategy.map .ofStrategy
  enableLongDistanceMatching :
    m.get? "enableLongDistanceMatching" = o.enableLongDistanceMatching.map .bool
  ldmHashLog : m.get? "ldmHashLog" = o.ldmHashLog.map .ofWord32
  ldmMinMatch : m.get? "ldmMinMatch" = o.ldmMinMatch.map .ofWord32
  ldmBucketSizeLog : m.get? "ldmBucketSizeLog" = o.ldmBucketSizeLog.map .ofWord32
  ldmHashRateLog : m.get? "ldmHashRateLog" = o.ldmHashRateLog.map .ofWord32
  contentSizeFlag : m.get? "contentSizeFlag" = o.contentSizeFlag.map .bool
  checksumFlag : m.get? "checksumFlag" = o.checksumFlag.map .bool
  dictIdFlag : m.get? "dictIdFlag" = o.dictIdFlag.map .bool
  nbWorkers : m.get? "nbWorkers" = o.nbWorkers.map .ofWord32
  jobSize : m.get? "jobSize" = o.jobSize.map .ofWord32
  overlapLog : m.get? "overlapLog" = o.overlapLog.map .ofWord32
  pledgedSize : m.get? "pledgedSize" = o.pledgedSize.map .ofWord64
  dictionary : m.get? "dictionary" = o.dictionary.map .dictionary
  sourceBufferLength : m.GivesLength "sourceBufferLength" o.sourceBufferLength
  destinationBufferLength : m.GivesLength "destinationBufferLength" o.destinationBufferLength
  useGlobalLock : m.GivesFlag "useGlobalLock" o.useGlobalLock

/-- The sizes are such that an integer of a map holds them. -/
structure Mappable (o : CompressorOptions) : Prop where
  pledgedSize : ∀ size, o.pledgedSize = some size → size.toNat < 2 ^ 63
  sourceBufferLength : o.sourceBufferLength.toNat < 2 ^ 63
  destinationBufferLength : o.destinationBufferLength.toNat < 2 ^ 63

/-- **Options are resolved** key by key to what the map describes. -/
theorem resolve_reads (m : OptionMap) :
    m.Reads keys (resolve m) fun o => o.Mappable ∧ o.Describes m := by
  refine (m.int32?_reads _).bind fun compressionLevel hcompressionLevel => ?_
  refine (m.word32?_reads _).bind fun windowLog hwindowLog => ?_
  refine (m.word32?_reads _).bind fun hashLog hhashLog => ?_
  refine (m.word32?_reads _).bind fun chainLog hchainLog => ?_
  refine (m.word32?_reads _).bind fun searchLog hsearchLog => ?_
  refine (m.word32?_reads _).bind fun minMatch hminMatch => ?_
  refine (m.word32?_reads _).bind fun targetLength htargetLength => ?_
  refine (m.strategy?_reads _).bind fun strategy hstrategy => ?_
  refine (m.bool?_reads _).bind fun enableLongDistanceMatching hmatching => ?_
  refine (m.word32?_reads _).bind fun ldmHashLog hldmHashLog => ?_
  refine (m.word32?_reads _).bind fun ldmMinMatch hldmMinMatch => ?_
  refine (m.word32?_reads _).bind fun ldmBucketSizeLog hldmBucketSizeLog => ?_
  refine (m.word32?_reads _).bind fun ldmHashRateLog hldmHashRateLog => ?_
  refine (m.bool?_reads _).bind fun contentSizeFlag hcontentSizeFlag => ?_
  refine (m.bool?_reads _).bind fun checksumFlag hchecksumFlag => ?_
  refine (m.bool?_reads _).bind fun dictIdFlag hdictIdFlag => ?_
  refine (m.word32?_reads _).bind fun nbWorkers hnbWorkers => ?_
  refine (m.word32?_reads _).bind fun jobSize hjobSize => ?_
  refine (m.word32?_reads _).bind fun overlapLog hoverlapLog => ?_
  refine (m.word64?_reads _).bind fun pledgedSize ⟨hpledge, hpledgedSize⟩ => ?_
  refine (m.dictionary?_reads _).bind fun dictionary hdictionary => ?_
  refine (m.length_reads _).bind fun sourceBufferLength ⟨hsource, hsourceBufferLength⟩ => ?_
  refine (m.length_reads _).bind fun destinationBufferLength ⟨hdestination, hlength⟩ => ?_
  refine (m.flag_reads _).bind fun useGlobalLock huseGlobalLock => ?_
  refine OptionMap.reads_pure ⟨⟨hpledge, hsource, hdestination⟩, ?_⟩
  exact ⟨hcompressionLevel, hwindowLog, hhashLog, hchainLog, hsearchLog, hminMatch, htargetLength,
    hstrategy, hmatching, hldmHashLog, hldmMinMatch, hldmBucketSizeLog, hldmHashRateLog,
    hcontentSizeFlag, hchecksumFlag, hdictIdFlag, hnbWorkers, hjobSize, hoverlapLog, hpledgedSize,
    hdictionary, hsourceBufferLength, hlength, huseGlobalLock⟩

end CompressorOptions

namespace DecompressorOptions

/-- Each field stands under its key. -/
structure Describes (m : OptionMap) (o : DecompressorOptions) : Prop where
  windowLogMax : m.get? "windowLogMax" = o.windowLogMax.map .ofWord32
  dictionary : m.get? "dictionary" = o.dictionary.map .dictionary
  sourceBufferLength : m.GivesLength "sourceBufferLength" o.sourceBufferLength
  destinationBufferLength : m.GivesLength "destinationBufferLength" o.destinationBufferLength
  useGlobalLock : m.GivesFlag "useGlobalLock" o.useGlobalLock

/-- The lengths are such that an integer of a map holds them. -/
structure Mappable (o : DecompressorOptions) : Prop where
  sourceBufferLength : o.sourceBufferLength.toNat < 2 ^ 63
  destinationBufferLength : o.destinationBufferLength.toNat < 2 ^ 63

/-- **Options are resolved** key by key to what the map describes. -/
theorem resolve_reads (m : OptionMap) :
    m.Reads keys (resolve m) fun o => o.Mappable ∧ o.Describes m := by
  refine (m.word32?_reads _).bind fun windowLogMax hwindowLogMax => ?_
  refine (m.dictionary?_reads _).bind fun dictionary hdictionary => ?_
  refine (m.length_reads _).bind fun sourceBufferLength ⟨hsource, hsourceBufferLength⟩ => ?_
  refine (m.length_reads _).bind fun destinationBufferLength ⟨hdestination, hlength⟩ => ?_
  refine (m.flag_reads _).bind fun useGlobalLock huseGlobalLock => ?_
  exact OptionMap.reads_pure ⟨⟨hsource, hdestination⟩, hwindowLogMax, hdictionary,
    hsourceBufferLength, hlength, huseGlobalLock⟩

end DecompressorOptions

end Zstandard
