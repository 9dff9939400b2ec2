import Zstandard.Proofs.Work

/-!
# The calls of readers and writers

A driver is seen by its ends as a list of reads, writes and flushes. `Observed` keeps that list for
any ends, and changes nothing else about them:

* `receivedBy` is what the reads gave, `acceptedBy` what the writes took;
* `Exhausted` says that one read told that there are no more bytes, and that it was the last.

What ends may be relied on for is a property of their states. `Supplies still` says that a reader
in a state with `still s` gives just the bytes `s`, in pieces of its own choice; `Obliges fine` says
that a writer in a `fine` state takes whatever it is offered, in pieces of its own choice, and stays
fine. Either may be interrupted any finite number of times before an answer.

How writing everything may go is told once, by `WriteCalls`; what its calls are like, and what they
come to, is read off from that by induction.
-/

namespace Zstandard

/-- A call of a reader or a writer, and what came of it. -/
inductive EndCall where
  | read (room : Nat) (result : Except IoError ByteArray)
  | write (offered : Slice) (result : Except IoError Nat)
  | flush (result : Except IoError Unit)

namespace EndCall

/-- The bytes that a read gave. -/
def received : EndCall → List UInt8
  | .read _ (.ok b) => b.data.toList
  | _ => []

/-- The bytes that a write took. -/
def accepted : EndCall → List UInt8
  | .write s (.ok n) => s.toList.take n
  | _ => []

/-- Whether the call is a read. -/
def isRead : EndCall → Bool
  | .read _ _ => true
  | _ => false

/-- Whether the call told that there are no more bytes to read. -/
def endsData : EndCall → Bool
  | .read room (.ok b) => room != 0 && b.size == 0
  | _ => false

end EndCall

/-- The bytes given by the reads among some calls. -/
def receivedBy (calls : List EndCall) : List UInt8 := calls.flatMap EndCall.received

/-- The bytes taken by the writes among some calls. -/
def acceptedBy (calls : List EndCall) : List UInt8 := calls.flatMap EndCall.accepted

@[simp] theorem receivedBy_nil : receivedBy [] = [] := rfl

@[simp] theorem acceptedBy_nil : acceptedBy [] = [] := rfl

@[simp] theorem receivedBy_append (a b : List EndCall) :
    receivedBy (a ++ b) = receivedBy a ++ receivedBy b := by
  simp [receivedBy]

@[simp] theorem acceptedBy_append (a b : List EndCall) :
    acceptedBy (a ++ b) = acceptedBy a ++ acceptedBy b := by
  simp [acceptedBy]

@[simp] theorem receivedBy_cons (c : EndCall) (calls : List EndCall) :
    receivedBy (c :: calls) = c.received ++ receivedBy calls := rfl

@[simp] theorem acceptedBy_cons (c : EndCall) (calls : List EndCall) :
    acceptedBy (c :: calls) = c.accepted ++ acceptedBy calls := rfl

/-- Calls without a read give nothing. -/
theorem receivedBy_of_no_read {calls : List EndCall} (h : ∀ c ∈ calls, c.isRead = false) :
    receivedBy calls = [] := by
  refine List.flatMap_eq_nil_iff.mpr fun c hc => ?_
  have := h c hc
  cases c with
  | read room result => simp [EndCall.isRead] at this
  | write s result => rfl
  | flush result => rfl

/-- Reads take nothing. -/
theorem acceptedBy_of_reads {calls : List EndCall} (h : ∀ c ∈ calls, c.isRead = true) :
    acceptedBy calls = [] := by
  refine List.flatMap_eq_nil_iff.mpr fun c hc => ?_
  have := h c hc
  cases c with
  | read room result => rfl
  | write s result => simp [EndCall.isRead] at this
  | flush result => simp [EndCall.isRead] at this

/-- No read has told that there are no more bytes. -/
def Unended (calls : List EndCall) : Prop := ∀ c ∈ calls, c.endsData = false

/-- One read told that there are no more bytes, and it was the last read. -/
def Exhausted (calls : List EndCall) : Prop :=
  ∃ before last after, calls = before ++ last :: after ∧ last.endsData = true
    ∧ Unended before ∧ ∀ c ∈ after, c.isRead = false

theorem unended_nil : Unended [] := fun _ hc => absurd hc List.not_mem_nil

theorem Unended.append {a b : List EndCall} (ha : Unended a) (hb : Unended b) :
    Unended (a ++ b) :=
  List.forall_mem_append.mpr ⟨ha, hb⟩

/-- What is not a read does not end the data. -/
theorem unended_of_no_read {calls : List EndCall} (h : ∀ c ∈ calls, c.isRead = false) :
    Unended calls := by
  intro c hc
  have := h c hc
  cases c with
  | read room result => simp [EndCall.isRead] at this
  | write s result => rfl
  | flush result => rfl

/-- Reads that end the data may come behind others. -/
theorem Unended.append_exhausted {a b : List EndCall} (ha : Unended a) (hb : Exhausted b) :
    Exhausted (a ++ b) := by
  obtain ⟨before, last, after, rfl, hlast, hbefore, hafter⟩ := hb
  exact ⟨a ++ before, last, after, by rw [List.append_assoc], hlast, ha.append hbefore, hafter⟩

theorem Exhausted.append {a b : List EndCall} (ha : Exhausted a)
    (hb : ∀ c ∈ b, c.isRead = false) : Exhausted (a ++ b) := by
  obtain ⟨before, last, after, rfl, hlast, hbefore, hafter⟩ := ha
  exact ⟨before, last, after ++ b, by simp, hlast, hbefore,
    List.forall_mem_append.mpr ⟨hafter, hb⟩⟩

/-- Since `before`, no read has told that there are no more bytes. -/
def ReadOn (before after : List EndCall) : Prop := ∃ more, after = before ++ more ∧ Unended more

/-- Since `before`, one read has told that there are no more bytes, and it was the last read. -/
def ReadOut (before after : List EndCall) : Prop := ∃ more, after = before ++ more ∧ Exhausted more

section ReadOn

variable {a b c : List EndCall}

theorem ReadOn.refl (a : List EndCall) : ReadOn a a := ⟨[], (List.append_nil a).symm, unended_nil⟩

theorem ReadOn.trans (h : ReadOn a b) (h' : ReadOn b c) : ReadOn a c := by
  obtain ⟨more, rfl, hmore⟩ := h
  obtain ⟨more', rfl, hmore'⟩ := h'
  exact ⟨more ++ more', List.append_assoc _ _ _, hmore.append hmore'⟩

theorem ReadOn.readOut (h : ReadOn a b) (h' : ReadOut b c) : ReadOut a c := by
  obtain ⟨more, rfl, hmore⟩ := h
  obtain ⟨more', rfl, hmore'⟩ := h'
  exact ⟨more ++ more', List.append_assoc _ _ _, hmore.append_exhausted hmore'⟩

end ReadOn

/-! ## Observed ends -/

/-- Ends together with the calls that were made of them, the latest last. -/
structure Observed (ε : Type) where
  ends : ε
  calls : List EndCall

namespace Observed

variable {ε : Type}

/-- Ends of which no call has been made. -/
def new (ends : ε) : Observed ε := ⟨ends, []⟩

instance [Reader ε] : Reader (Observed ε) where
  read o room :=
    match Reader.read o.ends room with
    | (result, ends) => (result, ⟨ends, o.calls ++ [.read room result]⟩)
  size_le h := by
    simp only [Prod.mk.injEq] at h
    exact Reader.size_le (Prod.ext h.1 rfl)

instance [Writer ε] : Writer (Observed ε) where
  write o s :=
    match Writer.write o.ends s with
    | (result, ends) => (result, ⟨ends, o.calls ++ [.write s result]⟩)
  flush o :=
    match Writer.flush o.ends with
    | (result, ends) => (result, ⟨ends, o.calls ++ [.flush result]⟩)
  taken_le h := by
    simp only [Prod.mk.injEq] at h
    exact Writer.taken_le (Prod.ext h.1 rfl)

theorem read_of [Reader ε] {o : Observed ε} {room : Nat} {result : Except IoError ByteArray}
    {ends : ε} (h : Reader.read o.ends room = (result, ends)) :
    Reader.read o room = (result, ⟨ends, o.calls ++ [EndCall.read room result]⟩) := by
  show (match Reader.read o.ends room with
    | (result, ends) => (result, (⟨ends, o.calls ++ [EndCall.read room result]⟩ : Observed ε))) = _
  rw [h]

theorem write_of [Writer ε] {o : Observed ε} {s : Slice} {result : Except IoError Nat}
    {ends : ε} (h : Writer.write o.ends s = (result, ends)) :
    Writer.write o s = (result, ⟨ends, o.calls ++ [EndCall.write s result]⟩) := by
  show (match Writer.write o.ends s with
    | (result, ends) => (result, (⟨ends, o.calls ++ [EndCall.write s result]⟩ : Observed ε))) = _
  rw [h]

theorem flush_of [Writer ε] {o : Observed ε} {result : Except IoError Unit} {ends : ε}
    (h : Writer.flush o.ends = (result, ends)) :
    Writer.flush o = (result, ⟨ends, o.calls ++ [EndCall.flush result]⟩) := by
  show (match Writer.flush o.ends with
    | (result, ends) => (result, (⟨ends, o.calls ++ [EndCall.flush result]⟩ : Observed ε))) = _
  rw [h]

end Observed

/-! ## Ends beside each other -/

namespace Ends

variable {ρ ω : Type}

theorem read_of [Reader ρ] {r r' : ρ} {room : Nat} {result : Except IoError ByteArray}
    (h : Reader.read r room = (result, r')) (w : ω) :
    Reader.read (⟨r, w⟩ : Ends ρ ω) room = (result, ⟨r', w⟩) := by
  show (match Reader.read r room with | (result, r') => (result, (⟨r', w⟩ : Ends ρ ω))) = _
  rw [h]

theorem write_of [Writer ω] {w w' : ω} {s : Slice} {result : Except IoError Nat}
    (h : Writer.write w s = (result, w')) (r : ρ) :
    Writer.write (⟨r, w⟩ : Ends ρ ω) s = (result, ⟨r, w'⟩) := by
  show (match Writer.write w s with | (result, w') => (result, (⟨r, w'⟩ : Ends ρ ω))) = _
  rw [h]

theorem flush_of [Writer ω] {w w' : ω} {result : Except IoError Unit}
    (h : Writer.flush w = (result, w')) (r : ρ) :
    Writer.flush (⟨r, w⟩ : Ends ρ ω) = (result, ⟨r, w'⟩) := by
  show (match Writer.flush w with | (result, w') => (result, (⟨r, w'⟩ : Ends ρ ω))) = _
  rw [h]

end Ends

/-! ## Writing everything -/

theorem mapError_ok {ε ε' α : Type} (f : ε → ε') (a : α) :
    (Except.ok a : Except ε α).mapError f = .ok a := rfl

theorem mapError_error {ε ε' α : Type} (f : ε → ε') (e : ε) :
    (Except.error e : Except ε α).mapError f = .error (f e) := rfl

section WriteAll

variable {ω : Type} [Writer ω]

theorem writeAll_of_isEmpty {turns : Nat} {w : ω} {s : Slice} (h : s.isEmpty = true) :
    writeAll turns w s = (.ok (), w) := by
  cases turns <;> simp [writeAll, writeAllBy, h]

theorem writeAll_zero {w : ω} {s : Slice} (h : s.isEmpty = false) :
    writeAll 0 w s = (.error .outOfTurns, w) := by
  simp [writeAll, writeAllBy, h]

/-- A write that takes something leaves the rest to be written. -/
theorem writeAll_taken {turns : Nat} {w w' : ω} {s : Slice} {n : Nat} (h : s.isEmpty = false)
    (hw : Writer.write w s = (.ok n, w')) (hn : 0 < n) :
    writeAll (turns + 1) w s = writeAll turns w' (s.drop n) := by
  obtain ⟨n, rfl⟩ : ∃ m, n = m + 1 := ⟨n - 1, by omega⟩
  simp [writeAll, writeAllBy, h, hw, mapError_ok]

/-- A write that takes nothing is a failure. -/
theorem writeAll_nothing {turns : Nat} {w w' : ω} {s : Slice} (h : s.isEmpty = false)
    (hw : Writer.write w s = (.ok 0, w')) :
    writeAll (turns + 1) w s
      = (.error (.failed (.plain .writeZero "failed to write whole buffer")), w') := by
  simp [writeAll, writeAllBy, h, hw, mapError_ok]

/-- An interrupted write is made again. -/
theorem writeAll_interrupted {turns : Nat} {w w' : ω} {s : Slice} {e : IoError}
    (h : s.isEmpty = false) (hw : Writer.write w s = (.error e, w'))
    (he : e.kind = .interrupted) : writeAll (turns + 1) w s = writeAll turns w' s := by
  simp [writeAll, writeAllBy, h, hw, mapError_error, he]

/-- Any other failure is the end of it. -/
theorem writeAll_failed {turns : Nat} {w w' : ω} {s : Slice} {e : IoError}
    (h : s.isEmpty = false) (hw : Writer.write w s = (.error e, w'))
    (he : e.kind ≠ .interrupted) : writeAll (turns + 1) w s = (.error (.failed e), w') := by
  simp [writeAll, writeAllBy, h, hw, mapError_error, he]

end WriteAll

/-- What a write came to ends the writing of everything or leaves a rest of it to be written,
whatever writer it was made to. -/
theorem writeAll_of_write {s : Slice} (hs : s.isEmpty = false) (result : Except IoError Nat) :
    (∃ told, ∀ {ω : Type} [Writer ω] {w w' : ω}, Writer.write w s = (result, w') →
      ∀ turns, writeAll (turns + 1) w s = (told, w'))
    ∨ ∃ rest, ∀ {ω : Type} [Writer ω] {w w' : ω}, Writer.write w s = (result, w') →
      ∀ turns, writeAll (turns + 1) w s = writeAll turns w' rest := by
  match result with
  | .ok 0 => exact .inl ⟨_, fun hw _ => writeAll_nothing hs hw⟩
  | .ok (n + 1) => exact .inr ⟨_, fun hw _ => writeAll_taken hs hw (Nat.succ_pos n)⟩
  | .error e =>
      by_cases he : e.kind = .interrupted
      · exact .inr ⟨_, fun hw _ => writeAll_interrupted hs hw he⟩
      · exact .inl ⟨_, fun hw _ => writeAll_failed hs hw he⟩

theorem toList_of_isEmpty {s : Slice} (h : s.isEmpty = true) : s.toList = [] := by
  apply List.length_eq_zero_iff.mp
  simpa [Slice.isEmpty] using h

theorem size_pos_of_isEmpty {s : Slice} (h : s.isEmpty = false) : 0 < s.size := by
  simpa [Slice.isEmpty, Nat.pos_iff_ne_zero] using h

theorem toList_ne_nil_of_isEmpty {s : Slice} (h : s.isEmpty = false) : s.toList ≠ [] := by
  intro hnil
  have hpos := size_pos_of_isEmpty h
  rw [← Slice.length_toList, hnil] at hpos
  exact absurd hpos (Nat.lt_irrefl 0)

/-- Where there is room, only nothing has an empty beginning. -/
theorem toList_of_take {s : Slice} {room : Nat} (hroom : room ≠ 0)
    (h : (s.take room).toBytes.size = 0) : s.toList = [] := by
  have hsize : (s.take room).toList.length = 0 := h
  rw [Slice.length_toList, Slice.size_take] at hsize
  refine List.length_eq_zero_iff.mp ?_
  rw [Slice.length_toList]
  omega

/-- The calls that writing a slice makes within some turns, and what comes of it. -/
inductive WriteCalls :
    (turns : Nat) → Slice → List EndCall → Except (Halt IoError) Unit → Prop where
  | done {turns : Nat} {s : Slice} (hs : s.isEmpty = true) : WriteCalls turns s [] (.ok ())
  | cut {s : Slice} (hs : s.isEmpty = false) : WriteCalls 0 s [] (.error .outOfTurns)
  | nothing {turns : Nat} {s : Slice} (hs : s.isEmpty = false) :
      WriteCalls (turns + 1) s [.write s (.ok 0)]
        (.error (.failed (.plain .writeZero "failed to write whole buffer")))
  | failed {turns : Nat} {s : Slice} {e : IoError} (hs : s.isEmpty = false)
      (he : e.kind ≠ .interrupted) :
      WriteCalls (turns + 1) s [.write s (.error e)] (.error (.failed e))
  | taken {turns n : Nat} {s : Slice} {more : List EndCall}
      {result : Except (Halt IoError) Unit} (hs : s.isEmpty = false) (hn : 0 < n)
      (rest : WriteCalls turns (s.drop n) more result) :
      WriteCalls (turns + 1) s (.write s (.ok n) :: more) result
  | interrupted {turns : Nat} {s : Slice} {e : IoError} {more : List EndCall}
      {result : Except (Halt IoError) Unit} (hs : s.isEmpty = false)
      (he : e.kind = .interrupted) (rest : WriteCalls turns s more result) :
      WriteCalls (turns + 1) s (.write s (.error e) :: more) result

/-- Whatever the writer is, writing a slice goes like this. -/
theorem writeAll_writeCalls {ε : Type} [Writer ε] : ∀ (turns : Nat) (o : Observed ε) (s : Slice),
    ∃ more, (writeAll turns o s).2.calls = o.calls ++ more
      ∧ WriteCalls turns s more (writeAll turns o s).1 := by
  intro turns o s
  induction turns generalizing o s with
  | zero =>
      cases hs : s.isEmpty with
      | true =>
          rw [writeAll_of_isEmpty hs]
          exact ⟨[], (List.append_nil _).symm, .done hs⟩
      | false =>
          rw [writeAll_zero hs]
          exact ⟨[], (List.append_nil _).symm, .cut hs⟩
  | succ turns ih =>
      cases hs : s.isEmpty with
      | true =>
          rw [writeAll_of_isEmpty hs]
          exact ⟨[], (List.append_nil _).symm, .done hs⟩
      | false =>
          obtain ⟨result, ends, hw⟩ : ∃ result ends, Writer.write o.ends s = (result, ends) :=
            ⟨_, _, rfl⟩
          have hwrite := Observed.write_of hw
          match result with
          | .ok 0 =>
              rw [writeAll_nothing hs hwrite]
              exact ⟨_, rfl, .nothing hs⟩
          | .ok (n + 1) =>
              rw [writeAll_taken hs hwrite (Nat.succ_pos n)]
              obtain ⟨more, hcalls, hmore⟩ := ih ⟨ends, _⟩ (s.drop (n + 1))
              exact ⟨_, by rw [hcalls, List.append_assoc]; rfl, .taken hs (Nat.succ_pos n) hmore⟩
          | .error e =>
              by_cases he : e.kind = .interrupted
              · rw [writeAll_interrupted hs hwrite he]
                obtain ⟨more, hcalls, hmore⟩ := ih ⟨ends, _⟩ s
                exact ⟨_, by rw [hcalls, List.append_assoc]; rfl, .interrupted hs he hmore⟩
              · rw [writeAll_failed hs hwrite he]
                exact ⟨_, rfl, .failed hs he⟩

namespace WriteCalls

variable {turns : Nat} {s : Slice} {more : List EndCall} {result : Except (Halt IoError) Unit}

theorem no_read (h : WriteCalls turns s more result) : ∀ c ∈ more, c.isRead = false := by
  induction h with
  | done | cut => exact List.forall_mem_nil _
  | nothing | failed => exact List.forall_mem_singleton.mpr rfl
  | taken _ _ _ ih | interrupted _ _ _ ih => exact List.forall_mem_cons.mpr ⟨rfl, ih⟩

/-- The writer has taken a beginning of the slice. -/
theorem sent (h : WriteCalls turns s more result) : acceptedBy more <+: s.toList := by
  induction h with
  | done | cut => exact List.nil_prefix
  | nothing | failed => simp [EndCall.accepted]
  | @taken _ n s _ _ _ _ _ ih =>
      -- what the later calls take comes after what this one took
      rw [Slice.toList_drop] at ih
      rw [acceptedBy_cons]
      conv => rhs; rw [← List.take_append_drop n s.toList]
      exact (List.prefix_append_right_inj _).mpr ih
  | interrupted _ _ _ ih => exact ih

/-- It has taken all of it if nothing failed. -/
theorem all (h : WriteCalls turns s more result) (hok : result = .ok ()) :
    acceptedBy more = s.toList := by
  induction h with
  | done hs => exact (toList_of_isEmpty hs).symm
  | cut | nothing | failed => cases hok
  | @taken _ n s _ _ _ _ _ ih =>
      rw [acceptedBy_cons, ih hok, Slice.toList_drop]
      exact List.take_append_drop n s.toList
  | interrupted _ _ _ ih => exact ih hok

end WriteCalls

/-- **What writing everything does to a writer.** It makes no read; the writer has taken a beginning
of the bytes, and all of them if nothing failed. -/
theorem writeAll_calls {ε : Type} [Writer ε] (turns : Nat) (o : Observed ε) (s : Slice) :
    ∃ more, (writeAll turns o s).2.calls = o.calls ++ more ∧ (∀ c ∈ more, c.isRead = false)
      ∧ acceptedBy more <+: s.toList
      ∧ ((writeAll turns o s).1 = .ok () → acceptedBy more = s.toList) := by
  obtain ⟨more, hcalls, hmore⟩ := writeAll_writeCalls turns o s
  exact ⟨more, hcalls, hmore.no_read, hmore.sent, hmore.all⟩

/-! ## Ends to rely on -/

/-- The reader's next answer to a read into `room`: a piece of `s`, or its end. It may be
interrupted before. -/
inductive Gives {ρ : Type} [Reader ρ] (still : List UInt8 → ρ → Prop) (room : Nat)
    (s : List UInt8) : ρ → Prop where
  | piece {r r' : ρ} {b : ByteArray} {rest : List UInt8} :
      Reader.read r room = (.ok b, r') → b.size ≠ 0 → s = b.data.toList ++ rest →
      still rest r' → Gives still room s r
  | nothing {r r' : ρ} {b : ByteArray} :
      Reader.read r room = (.ok b, r') → b.size = 0 → s = [] → still s r' → Gives still room s r
  | interrupted {r r' : ρ} {e : IoError} :
      Reader.read r room = (.error e, r') → e.kind = .interrupted → Gives still room s r' →
      Gives still room s r

/-- In a state with `still s` the reader gives the bytes `s`, and then no more. -/
structure Supplies {ρ : Type} [Reader ρ] (still : List UInt8 → ρ → Prop) : Prop where
  /-- Every read with room is answered. -/
  read : ∀ {s : List UInt8} {r : ρ} {room : Nat}, still s r → 0 < room → Gives still room s r

/-- The writer's next answer to a write of `s`: it takes some of it. It may be interrupted
before. -/
inductive Takes {ω : Type} [Writer ω] (fine : ω → Prop) (s : Slice) : ω → Prop where
  | some {w w' : ω} {n : Nat} :
      Writer.write w s = (.ok n, w') → 0 < n → fine w' → Takes fine s w
  | interrupted {w w' : ω} {e : IoError} :
      Writer.write w s = (.error e, w') → e.kind = .interrupted → Takes fine s w' →
      Takes fine s w

/-- In a fine state the writer takes what it is offered, and stays fine. -/
structure Obliges {ω : Type} [Writer ω] (fine : ω → Prop) : Prop where
  /-- Every write of something is answered. -/
  write : ∀ {w : ω} {s : Slice}, fine w → s.isEmpty = false → Takes fine s w
  /-- A flush succeeds. -/
  flush : ∀ {w : ω}, fine w → ∃ w', Writer.flush w = (.ok (), w') ∧ fine w'

/-- A slice gives its bytes, and then no more. -/
theorem supplies_slice : Supplies fun rest (s : Slice) => s.toList = rest where
  read {rest s room} hs hroom := by
    have hread : Reader.read s room = (.ok (s.take room).toBytes, s.drop room) := rfl
    have hsize : (s.take room).toBytes.size = min room s.size :=
      (Slice.length_toList _).trans (Slice.size_take s room)
    by_cases hzero : s.size = 0
    · have hnil : rest = [] := hs ▸ toList_of_isEmpty (by simpa [Slice.isEmpty] using hzero)
      refine .nothing hread (by omega) hnil ?_
      rw [Slice.toList_drop, hs, hnil, List.drop_nil]
    · refine .piece hread (by omega) ?_ rfl
      rw [Slice.toList_drop, ← hs]
      exact ((List.take_append_drop room s.toList).symm).trans
        (congrArg (· ++ _) (Slice.toList_take s room).symm)

/-- An array takes everything. -/
theorem obliges_bytes : Obliges fun _ : ByteArray => True where
  write {b s} _ hs := by
    have hwrite : Writer.write b s = (.ok s.size, s.appendTo b) := rfl
    exact .some hwrite (size_pos_of_isEmpty hs) trivial
  flush {b} _ := ⟨b, rfl, trivial⟩

section Ends

variable {ρ ω : Type} [Reader ρ] [Writer ω] {still : List UInt8 → ρ → Prop} {fine : ω → Prop}

/-- A reader and a writer to rely on, side by side. -/
def Reliable (still : List UInt8 → ρ → Prop) (fine : ω → Prop) (s : List UInt8)
    (e : Ends ρ ω) : Prop :=
  still s e.reader ∧ fine e.writer

omit [Writer ω] in
/-- A reader beside a writer gives what it gives alone. -/
theorem Supplies.beside (h : Supplies still) :
    Supplies (Reliable still fine : List UInt8 → Ends ρ ω → Prop) where
  read := by
    intro s e room he hroom
    obtain ⟨reader, writer⟩ := e
    obtain ⟨hreader, hwriter⟩ := he
    dsimp only at hreader hwriter
    -- on the interruptions before the answer, none of which touches the writer
    have hgives := h.read hreader hroom
    clear hreader
    induction hgives with
    | piece hr hne hs hrest => exact .piece (Ends.read_of hr writer) hne hs ⟨hrest, hwriter⟩
    | nothing hr hzero hs hrest => exact .nothing (Ends.read_of hr writer) hzero hs ⟨hrest, hwriter⟩
    | interrupted hr hkind _ ih => exact .interrupted (Ends.read_of hr writer) hkind ih

omit [Reader ρ] in
/-- A writer beside a reader takes what it takes alone. -/
theorem Obliges.beside (still : List UInt8 → ρ → Prop) (h : Obliges fine) (s : List UInt8) :
    Obliges (Reliable still fine s : Ends ρ ω → Prop) where
  write := by
    intro e offered he hne
    obtain ⟨reader, writer⟩ := e
    obtain ⟨hreader, hwriter⟩ := he
    dsimp only at hreader hwriter
    have htakes := h.write hwriter hne
    clear hwriter
    induction htakes with
    | some hw hn hfine => exact .some (Ends.write_of hw reader) hn ⟨hreader, hfine⟩
    | interrupted hw hkind _ ih => exact .interrupted (Ends.write_of hw reader) hkind ih
  flush := by
    intro e he
    obtain ⟨reader, writer⟩ := e
    obtain ⟨w', hw, hfine⟩ := h.flush he.2
    exact ⟨⟨reader, w'⟩, Ends.flush_of hw reader, he.1, hfine⟩

end Ends

/-- Writing everything to a writer in a fine state comes to an end, and succeeds. -/
theorem writeAll_settles {ε : Type} [Writer ε] {fine : ε → Prop} (hfine : Obliges fine) :
    ∀ (size : Nat) (s : Slice), s.size = size → ∀ o : Observed ε, fine o.ends →
      ∃ o', Settles (fun turns => writeAll turns o s) (.ok (), o') ∧ fine o'.ends := by
  intro size
  -- on the bytes left to write: every answer takes at least one
  induction size using Nat.strongRecOn with
  | ind size ih =>
    intro s hsize o ho
    cases hs : s.isEmpty with
    | true =>
        refine ⟨o, ⟨0, fun turns _ => ?_⟩, ho⟩
        exact writeAll_of_isEmpty hs
    | false =>
        -- and on the interruptions before the writer answers, of which there are finitely many
        have hpos := size_pos_of_isEmpty hs
        have key : ∀ w, Takes fine s w → ∀ calls, ∃ o',
            Settles (fun turns => writeAll turns (⟨w, calls⟩ : Observed ε) s) (.ok (), o')
              ∧ fine o'.ends := by
          intro w hw
          induction hw with
          | @some w w' n hwrite hn hw' =>
              intro calls
              have heq := Observed.write_of (o := ⟨w, calls⟩) hwrite
              obtain ⟨o', hset, ho'⟩ := ih (s.drop n).size (by rw [Slice.size_drop]; omega)
                (s.drop n) rfl ⟨w', _⟩ hw'
              refine ⟨o', Settles.of_succ ?_, ho'⟩
              simp only [writeAll_taken hs heq hn]
              exact hset
          | @interrupted w w' e hwrite he _ ihw =>
              intro calls
              have heq := Observed.write_of (o := ⟨w, calls⟩) hwrite
              obtain ⟨o', hset, ho'⟩ := ihw (calls ++ [.write s (.error e)])
              refine ⟨o', Settles.of_succ ?_, ho'⟩
              simp only [writeAll_interrupted hs heq he]
              exact hset
        exact key o.ends (hfine.write ho hs) o.calls

end Zstandard
