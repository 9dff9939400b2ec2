import Zstandard.Proofs.Ends

/-!
# Callers of readers and writers

A writer is asked to take parts and to flush, one request after another; a reader is read piece by
piece until it has no more. Both callers give up at the first failure.

What single calls keep, the callers keep (`serveEach_ok`, `readEvery_ok`); and if single calls come
to an end and bring something about, the callers come to an end (`serveEach_settles`,
`readEvery_settles`).
-/

namespace Zstandard

/-! ## Writers -/

/-- What a writer is asked for. -/
inductive Request where
  | write (part : Slice)
  | flush

/-- The bytes of a request. -/
def Request.bytes : Request → List UInt8
  | .write part => part.toList
  | .flush => []

/-- The bytes of some requests. -/
def requested (requests : List Request) : List UInt8 := requests.flatMap Request.bytes

@[simp] theorem requested_nil : requested [] = [] := rfl

@[simp] theorem requested_cons (request : Request) (requests : List Request) :
    requested (request :: requests) = request.bytes ++ requested requests := rfl

section Write

variable {ω : Type} (write : (turns : Nat) → ω → Slice → Except (Halt IoError) Nat × ω)
  (flush : (turns : Nat) → ω → Except (Halt IoError) Unit × ω)

/-- Writes until all of a slice is taken. -/
def writeThrough : (turns : Nat) → ω → Slice → Except (Halt IoError) Unit × ω
  | 0, w, s => if s.isEmpty then (.ok (), w) else (.error .outOfTurns, w)
  | turns + 1, w, s =>
    if s.isEmpty then (.ok (), w)
    else
      match write turns w s with
      | (.ok 0, w) => (.error (.failed (.plain .writeZero "failed to write whole buffer")), w)
      | (.ok n, w) => writeThrough turns w (s.drop n)
      | (.error h, w) => (.error h, w)

/-- Serves requests one after another. -/
def serveEach (turns : Nat) : ω → List Request → Except (Halt Error) ω
  | w, [] => .ok w
  | w, .write part :: rest =>
    match writeThrough write turns w part with
    | (.ok (), w) => serveEach turns w rest
    | (.error h, _) => .error (h.map Error.ofIoError)
  | w, .flush :: rest =>
    match flush turns w with
    | (.ok (), w) => serveEach turns w rest
    | (.error h, _) => .error (h.map Error.ofIoError)

variable {write flush}

/-- Writing through keeps what single writes keep. -/
theorem writeThrough_ok {Q : List Request → ω → Prop} {rest : List Request}
    (hwrite : ∀ {s : Slice} {w w' turns n}, Q (.write s :: rest) w →
      write turns w s = (.ok n, w') → Q (.write (s.drop n) :: rest) w') :
    ∀ (turns : Nat) {w w' : ω} {s : Slice}, Q (.write s :: rest) w →
      writeThrough write turns w s = (.ok (), w') →
      ∃ s' : Slice, s'.isEmpty = true ∧ Q (.write s' :: rest) w' := by
  intro turns
  induction turns with
  | zero =>
      intro w w' s h hw
      rw [writeThrough] at hw
      split at hw <;> cases hw
      next hempty => exact ⟨s, hempty, h⟩
  | succ turns ih =>
      intro w w' s h hw
      rw [writeThrough] at hw
      split at hw
      · next hempty =>
        cases hw
        exact ⟨s, hempty, h⟩
      · split at hw
        · cases hw
        · next n w₁ _ hstep => exact ih (hwrite h hstep) hw
        · cases hw

/-- **Serving requests** keeps what single calls keep. -/
theorem serveEach_ok {Q : List Request → ω → Prop}
    (hwrite : ∀ {s : Slice} {rest w w' turns n}, Q (.write s :: rest) w →
      write turns w s = (.ok n, w') → Q (.write (s.drop n) :: rest) w')
    (hwritten : ∀ {s : Slice} {rest w}, Q (.write s :: rest) w → s.isEmpty = true → Q rest w)
    (hflush : ∀ {rest w w' turns}, Q (.flush :: rest) w → flush turns w = (.ok (), w') → Q rest w')
    {turns : Nat} : ∀ (requests : List Request) {w w' : ω}, Q requests w →
      serveEach write flush turns w requests = .ok w' → Q [] w' := by
  intro requests
  -- `Q` speaks of the requests that are left, so it comes to speak of none
  induction requests with
  | nil =>
      intro w w' h hw
      cases hw
      exact h
  | cons request rest ih =>
      intro w w' h hw
      cases request with
      | write part =>
          rw [serveEach] at hw
          split at hw
          · next hpart =>
            obtain ⟨s', hs', h'⟩ := writeThrough_ok hwrite turns h hpart
            exact ih (hwritten h' hs') hw
          · cases hw
      | flush =>
          rw [serveEach] at hw
          split at hw
          · next hflushed => exact ih (hflush h hflushed) hw
          · cases hw

/-- Writing through comes to an end if single writes do, and take something. -/
theorem writeThrough_settles {Q : List Request → ω → Prop} {rest : List Request}
    (hwrite : ∀ {s : Slice} {w}, Q (.write s :: rest) w → s.isEmpty = false →
      ∃ n w', Settles (fun turns => write turns w s) (.ok n, w') ∧ n ≠ 0
        ∧ Q (.write (s.drop n) :: rest) w') :
    ∀ (size : Nat) {s : Slice} {w : ω}, s.size = size → Q (.write s :: rest) w →
      ∃ (s' : Slice) (w' : ω), Settles (fun turns => writeThrough write turns w s) (.ok (), w')
        ∧ s'.isEmpty = true ∧ Q (.write s' :: rest) w' := by
  intro size
  -- on the bytes left to write: a write that succeeds takes at least one
  induction size using Nat.strongRecOn with
  | ind size ih =>
    intro s w hsize h
    cases hempty : s.isEmpty with
    | true =>
        refine ⟨s, w, ⟨0, fun turns _ => ?_⟩, hempty, h⟩
        cases turns <;> simp [writeThrough, hempty]
    | false =>
        obtain ⟨n, w₁, hstep, hn, h₁⟩ := hwrite h hempty
        have hpos := size_pos_of_isEmpty hempty
        obtain ⟨s', w', hrest, hs', h'⟩ := ih (s.drop n).size
          (by rw [Slice.size_drop]; omega) rfl h₁
        refine ⟨s', w', Settles.of_succ (hstep.imp₂ hrest fun turns hk hm => ?_), hs', h'⟩
        obtain ⟨n, rfl⟩ : ∃ m, n = m + 1 := ⟨n - 1, by omega⟩
        simp only [writeThrough, hempty, Bool.false_eq_true, if_false, hk, hm]

/-- **Serving requests** comes to an end if single calls do. -/
theorem serveEach_settles {Q : List Request → ω → Prop}
    (hwrite : ∀ {s : Slice} {rest w}, Q (.write s :: rest) w → s.isEmpty = false →
      ∃ n w', Settles (fun turns => write turns w s) (.ok n, w') ∧ n ≠ 0
        ∧ Q (.write (s.drop n) :: rest) w')
    (hwritten : ∀ {s : Slice} {rest w}, Q (.write s :: rest) w → s.isEmpty = true → Q rest w)
    (hflush : ∀ {rest w}, Q (.flush :: rest) w →
      ∃ w', Settles (fun turns => flush turns w) (.ok (), w') ∧ Q rest w') :
    ∀ (requests : List Request) {w : ω}, Q requests w →
      ∃ w', Settles (fun turns => serveEach write flush turns w requests) (.ok w') ∧ Q [] w' := by
  intro requests
  induction requests with
  | nil => intro w h; exact ⟨w, Settles.const, h⟩
  | cons request rest ih =>
      intro w h
      cases request with
      | write part =>
          obtain ⟨s', w₁, hpart, hs', h₁⟩ :=
            writeThrough_settles (fun hq => hwrite hq) part.size rfl h
          obtain ⟨w', hrest, h'⟩ := ih (hwritten h₁ hs')
          refine ⟨w', hpart.imp₂ hrest fun turns hk hm => ?_, h'⟩
          simp only [serveEach, hk, hm]
      | flush =>
          obtain ⟨w₁, hflushed, h₁⟩ := hflush h
          obtain ⟨w', hrest, h'⟩ := ih h₁
          refine ⟨w', hflushed.imp₂ hrest fun turns hk hm => ?_, h'⟩
          simp only [serveEach, hk, hm]

end Write

/-! ## Readers -/

section Read

variable {ρ : Type} (read : (turns : Nat) → ρ → (room : Nat) → Except (Halt IoError) ByteArray × ρ)
  (rooms : Nat → Nat)

/-- Reads until a read gives nothing, the next time into `rooms k`; gives what was read, behind
`out`. -/
def readEvery : (turns : Nat) → (k : Nat) → ρ → (out : List UInt8) →
    Except (Halt Error) (List UInt8)
  | 0, _, _, _ => .error .outOfTurns
  | turns + 1, k, r, out =>
    match read turns r (rooms k) with
    | (.ok chunk, r) =>
      if chunk.size = 0 then .ok out else readEvery turns (k + 1) r (out ++ chunk.data.toList)
    | (.error h, _) => .error (h.map Error.ofIoError)

variable {read rooms}

/-- **Reading to the end** keeps what single reads keep, and the last read gave nothing. -/
theorem readEvery_ok {P : List UInt8 → ρ → Prop}
    (hread : ∀ {served r r' turns room b}, P served r → read turns r room = (.ok b, r') →
      P (served ++ b.data.toList) r') :
    ∀ (turns : Nat) {k : Nat} {r : ρ} {served out : List UInt8}, P served r →
      readEvery read rooms turns k r served = .ok out →
      ∃ r₁ r₂ turns' j b, P out r₁ ∧ read turns' r₁ (rooms j) = (.ok b, r₂) ∧ b.size = 0 := by
  intro turns
  induction turns with
  | zero => intro k r served out _ hr; simp [readEvery] at hr
  | succ turns ih =>
      intro k r served out h hr
      rw [readEvery] at hr
      split at hr
      · next b r₁ hstep =>
        split at hr
        · next hzero =>
          cases hr
          exact ⟨r, r₁, turns, k, b, h, hstep, hzero⟩
        · exact ih (hread h hstep) hr
      · cases hr

/-- **Reading to the end** comes to an end if single reads do and there is an end to what they give:
with all that was read, which is what the last read makes of it, or with the failure of a read. -/
theorem readEvery_settles {Q : List UInt8 → ρ → Prop} {R : List UInt8 → Prop}
    {F : IoError → Prop} {bound : Nat}
    (hrooms : ∀ k, rooms k ≠ 0)
    (hbound : ∀ {served r}, Q served r → served.length ≤ bound)
    (hread : ∀ {served r room}, Q served r → room ≠ 0 →
      (∃ b r', Settles (fun turns => read turns r room) (.ok b, r')
          ∧ (b.size ≠ 0 → Q (served ++ b.data.toList) r') ∧ (b.size = 0 → R served))
        ∨ (∃ r' e, Settles (fun turns => read turns r room) (.error (.failed e), r') ∧ F e))
    {k : Nat} {r : ρ} {served : List UInt8} (h : Q served r) :
    (∃ out, Settles (fun turns => readEvery read rooms turns k r served) (.ok out) ∧ R out)
      ∨ (∃ e, Settles (fun turns => readEvery read rooms turns k r served)
          (.error (.failed (Error.ofIoError e))) ∧ F e) := by
  -- on what is left of the bound, which every piece but the last makes smaller
  induction hleft : bound - served.length using Nat.strongRecOn generalizing k r served with
  | ind left ih =>
    rcases hread h (hrooms k) with ⟨b, r', hstep, hnext, hlast⟩ | ⟨r', e, hstep, he⟩
    · by_cases hzero : b.size = 0
      · refine Or.inl ⟨served, Settles.of_succ (hstep.imp fun turns hn => ?_), hlast hzero⟩
        simp only [readEvery, hn, hzero, if_true]
      · have h' := hnext hzero
        have hlonger := hbound h'
        rw [List.length_append] at hlonger
        have hsize : b.data.toList.length = b.size := rfl
        have hturn : ∀ {result : Except (Halt Error) (List UInt8)},
            Settles (fun turns => readEvery read rooms turns (k + 1) r'
              (served ++ b.data.toList)) result →
            Settles (fun turns => readEvery read rooms turns k r served) result := by
          intro result hsettles
          refine Settles.of_succ (hstep.imp₂ hsettles fun turns hn hm => ?_)
          simp only [readEvery, hn, if_neg hzero, hm]
        rcases ih (bound - (served ++ b.data.toList).length) (by rw [List.length_append]; omega)
            (k := k + 1) h' rfl with ⟨out, hsettles, hout⟩ | ⟨e, hsettles, he⟩
        · exact Or.inl ⟨out, hturn hsettles, hout⟩
        · exact Or.inr ⟨e, hturn hsettles, he⟩
    · refine Or.inr ⟨e, Settles.of_succ (hstep.imp fun turns hn => ?_), he⟩
      simp only [readEvery, hn, Halt.map]

end Read

end Zstandard
