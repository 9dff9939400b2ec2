import Zstandard.Proofs.Faltering
import Zstandard.Proofs.PumpsAlike
import Zstandard.Proofs.WritersAlike
import Zstandard.Script

/-!
# Interruptions and short writes

A read that is interrupted is made again, and so is a write; a write that takes a part of what it is
offered is followed by one that offers the rest. So how often a reader and a writer are interrupted,
and in which pieces the writer takes what it is offered, is seen neither by the caller of a driver
nor by its codec, and the bytes that the writer gets are the same (`interruptions_are_invisible`).

A `Sink` is what a writer writes to, byte by byte. A `Piecemeal` writer puts everything into its
sink, in pieces of any sizes, with interruptions before them.
-/

namespace Zstandard

/-! ## Writers -/

/-- Something that takes single bytes. -/
class Sink (ω : Type) where
  /-- Takes one byte. -/
  put : ω → UInt8 → ω
  /-- Hands on what was taken. -/
  flush : ω → Except IoError Unit × ω

/-- An array takes every byte at its end. -/
instance : Sink ByteArray where
  put := ByteArray.push
  flush b := (.ok (), b)

/-- An interruption. -/
abbrev Interruption := {e : IoError // e.kind = .interrupted}

/-- A writer that puts what it is offered into a sink, piece by piece. -/
structure Piecemeal (ω : Type) where
  /-- What the bytes are put into. -/
  sink : ω
  /-- The interruptions before the next piece. -/
  now : List Interruption
  /-- The most that the next piece holds, less one. -/
  share : Nat
  /-- The interruptions before each piece after that, and the most that it holds, less one. -/
  later : Nat → List Interruption × Nat

namespace Piecemeal

variable {ω : Type} [Sink ω]

/-- Puts the first `n` bytes into the sink, and turns to the next piece. -/
def take (p : Piecemeal ω) (s : Slice) (n : Nat) : Piecemeal ω :=
  ⟨(s.toList.take n).foldl Sink.put p.sink, (p.later 0).1, (p.later 0).2,
    fun n => p.later (n + 1)⟩

instance : Writer (Piecemeal ω) where
  write p s :=
    match p.now with
    | e :: now => (.error e.1, { p with now })
    | [] => (.ok (min (p.share + 1) s.size), p.take s (min (p.share + 1) s.size))
  flush p := ((Sink.flush p.sink).1, { p with sink := (Sink.flush p.sink).2 })
  taken_le {p p' s n} h := by
    cases hnow : p.now with
    | cons e now =>
        rw [hnow] at h
        cases h
    | nil =>
        rw [hnow] at h
        cases h
        exact Nat.min_le_right _ _

theorem write_interrupted {sink : ω} {e : Interruption} {now : List Interruption} {share : Nat}
    {later : Nat → List Interruption × Nat} {s : Slice} :
    Writer.write (⟨sink, e :: now, share, later⟩ : Piecemeal ω) s
      = (.error e.1, ⟨sink, now, share, later⟩) := rfl

theorem write_piece {sink : ω} {share : Nat} {later : Nat → List Interruption × Nat} {s : Slice} :
    Writer.write (⟨sink, [], share, later⟩ : Piecemeal ω) s
      = (.ok (min (share + 1) s.size),
        take ⟨sink, [], share, later⟩ s (min (share + 1) s.size)) := rfl

/-- **Writing everything puts everything into the sink.** -/
theorem writeAll_settles : ∀ (size : Nat) {s : Slice}, s.size = size → ∀ p : Piecemeal ω,
    ∃ p', Settles (fun turns => writeAll turns p s) (.ok (), p')
      ∧ p'.sink = s.toList.foldl Sink.put p.sink := by
  intro size
  -- on the bytes left to write: every piece holds at least one
  induction size using Nat.strongRecOn with
  | ind size ih =>
    intro s hsize p
    cases hs : s.isEmpty with
    | true =>
        refine ⟨p, ⟨0, fun turns _ => writeAll_of_isEmpty hs⟩, ?_⟩
        rw [toList_of_isEmpty hs]
        rfl
    | false =>
        have hpos := size_pos_of_isEmpty hs
        obtain ⟨sink, now, share, later⟩ := p
        -- and on the interruptions before the next piece
        induction now with
        | cons e now ihnow =>
            obtain ⟨p', hset, hsink⟩ := ihnow
            refine ⟨p', Settles.of_succ (hset.imp fun turns hturns => ?_), hsink⟩
            rw [← hturns]
            exact writeAll_interrupted hs write_interrupted e.2
        | nil =>
            obtain ⟨p', hset, hsink⟩ := ih (s.drop (min (share + 1) s.size)).size
              (by rw [Slice.size_drop]; omega) rfl
              (take ⟨sink, [], share, later⟩ s (min (share + 1) s.size))
            refine ⟨p', Settles.of_succ (hset.imp fun turns hturns => ?_), ?_⟩
            · rw [← hturns]
              exact writeAll_taken hs write_piece (by omega)
            · rw [hsink, Slice.toList_drop, take, ← List.foldl_append, List.take_append_drop]

/-- Two writers that put into one sink, with different interruptions and pieces. -/
def Same (p p' : Piecemeal ω) : Prop := p'.sink = p.sink

/-- **Writers that differ in interruptions and pieces alone** are alike to a driver. -/
theorem writesAlike : WritesAlike (Same (ω := ω)) where
  write {p p'} hsame turns s answer p₁ hwrite := by
    obtain ⟨p₂, hset, hsink⟩ := writeAll_settles _ rfl p
    obtain ⟨p₂', hset', hsink'⟩ := writeAll_settles _ rfl p'
    have hstands := settles_of_stands (fun turns => writeAll_stands turns p s) (n := turns)
      (by rw [hwrite]; exact answered_ne answer)
    rw [hwrite] at hstands
    obtain ⟨hanswer, rfl⟩ := Prod.mk.inj (hstands.unique hset)
    exact ⟨p₂', hanswer ▸ hset', by rw [Same, hsink', hsink, hsame]⟩
  flush {p p'} hsame result p₁ hflush := by
    obtain ⟨hresult, rfl⟩ := Prod.mk.inj hflush
    refine ⟨{ p' with sink := (Sink.flush p'.sink).2 }, Prod.ext ?_ rfl, by rw [Same, hsame]⟩
    rw [← hresult, ← hsame]
    rfl

end Piecemeal

/-! ## Drivers -/

/-- A reader that is interrupted now and then. -/
abbrev Interrupted (ρ : Type) := Faltering (· = .interrupted) ρ

/-- What callers and codecs see does not depend on interruptions and pieces: from two states that
differ in them alone, each call that comes to its end on one side comes to the same on the other,
and leaves two states that differ in them alone. -/
structure InterruptionsInvisible (κ ρ ω : Type) [Codec κ] [Reader ρ] [Sink ω] : Prop where
  pump : HoldsAlike
    (Pump.Beside (κ := κ) (Ends.Both (Faltering.Same (ρ := ρ)) (Piecemeal.Same (ω := ω))))
    (Pump.serve (ε := Ends (Interrupted ρ) (Piecemeal ω))) Pump.serve
  compress : ∀ {memory : Memory} {make : CompressorOptions → Except Error κ} {turns : Nat}
    {o : CompressorOptions} {ends ends' : Ends (Interrupted ρ) (Piecemeal ω)} {log : Log},
    ends.Both Faltering.Same Piecemeal.Same ends' →
    (Stream.compress memory make turns o ends log).result ≠ .error .outOfTurns →
    ∃ t', Settles (fun turns => Stream.compress memory make turns o ends' log) t'
      ∧ (Stream.compress memory make turns o ends log).Beside
        (Ends.Both Faltering.Same Piecemeal.Same) t'
  decompress : ∀ {memory : Memory} {make : DecompressorOptions → Except Error κ} {turns : Nat}
    {o : DecompressorOptions} {ends ends' : Ends (Interrupted ρ) (Piecemeal ω)} {log : Log},
    ends.Both Faltering.Same Piecemeal.Same ends' →
    (Stream.decompress memory make turns o ends log).result ≠ .error .outOfTurns →
    ∃ t', Settles (fun turns => Stream.decompress memory make turns o ends' log) t'
      ∧ (Stream.decompress memory make turns o ends log).Beside
        (Ends.Both Faltering.Same Piecemeal.Same) t'
  compressingReader : HoldsAlike (CompressingReader.Beside (κ := κ) (Faltering.Same (ρ := ρ)))
    (CompressingReader.read (ρ := Interrupted ρ)) CompressingReader.read
  decompressingReader : HoldsAlike (DecompressingReader.Beside (κ := κ) (Faltering.Same (ρ := ρ)))
    (DecompressingReader.read (ρ := Interrupted ρ)) DecompressingReader.read
  compressingWriter : HoldsAlike (CompressingWriter.Beside (κ := κ) (Piecemeal.Same (ω := ω)))
    CompressingWriter.serve CompressingWriter.serve
  /-- Finishing may make a second attempt, which has to have come to its end too. -/
  compressingFinish : ∀ {c d : CompressingWriter κ (Piecemeal ω)}, c.Beside Piecemeal.Same d →
    ∀ {turns answer c'}, c.finishing turns = (answered answer, c') →
    c.finish turns = (answered answer, c')
      ∧ ∃ d', Settles (fun turns => d.finish turns) (answered answer, d')
        ∧ c'.Beside Piecemeal.Same d'
  /-- Letting go of a writer tells nothing, but it has to have come to its end. -/
  release : ∀ {c d : CompressingWriter κ (Piecemeal ω)}, c.Beside Piecemeal.Same d →
    ∀ {turns answer c'}, c.releasing turns = (answered answer, c') →
    c.release turns = c'
      ∧ ∃ d', Settles (fun turns => d.release turns) d' ∧ c'.Beside Piecemeal.Same d'
  decompressingWriter : HoldsAlike (DecompressingWriter.Beside (κ := κ) (Piecemeal.Same (ω := ω)))
    DecompressingWriter.serve DecompressingWriter.serve
  decompressingFinish : ∀ {c d : DecompressingWriter κ (Piecemeal ω)}, c.Beside Piecemeal.Same d →
    ∀ {turns}, Follows (DecompressingWriter.Beside Piecemeal.Same) (c.finish turns)
      fun turns => d.finish turns

/-- **Interruptions and short writes are invisible.** Take two readers that come from one, with any
interruptions put before its reads, any finite number before each, and two writers that put what
they are offered into one sink, in pieces of any sizes but none, with any interruptions before them.
Around any codec, a pump, a stream, a reader and a writer come to the same in front of the one and
in front of the other, call by call, and leave the same behind: the codec, with the record of its
steps if it keeps one, what is left to read, and the sink. -/
theorem interruptions_are_invisible {κ ρ ω : Type} [Codec κ] [Reader ρ] [Sink ω] :
    InterruptionsInvisible κ ρ ω where
  pump := holdsAlike_of_follows fun turns request _ _ hp =>
    Pump.serve_follows Faltering.readsAlike.ends Piecemeal.writesAlike.ends turns request hp
  compress hends hturns :=
    Stream.compress_alike
      (Pump.startsAlike Faltering.readsAlike.ends Piecemeal.writesAlike.ends hends)
      Piecemeal.writesAlike.ends hends hturns
  decompress hends hturns :=
    Stream.decompress_alike
      (Pump.startsAlike Faltering.readsAlike.ends Piecemeal.writesAlike.ends hends)
      Piecemeal.writesAlike.ends hends hturns
  compressingReader := by
    have hread : CompressingReader.read (κ := κ) (ρ := Interrupted ρ) = Pull.read := by
      funext turns room c
      exact c.read_eq turns room
    rw [hread]
    exact (CompressingReader.alike_beside Faltering.readsAlike).dialogue
  decompressingReader := by
    have hread : DecompressingReader.read (κ := κ) (ρ := Interrupted ρ) = Pull.read := by
      funext turns room d
      exact d.read_eq turns room
    rw [hread]
    exact (DecompressingReader.alike_beside Faltering.readsAlike).dialogue
  compressingWriter := holdsAlike_of_follows fun turns request _ _ hc =>
    CompressingWriter.serve_follows Piecemeal.writesAlike hc turns request
  compressingFinish hc turns answer c' hfinish := by
    obtain ⟨d', hset, h'⟩ :=
      CompressingWriter.finishing_follows Piecemeal.writesAlike hc turns answer c' hfinish
    exact ⟨CompressingWriter.finishing_eq hfinish, d',
      hset.imp fun turns hturns => CompressingWriter.finishing_eq hturns, h'⟩
  release hc turns answer c' hrelease := by
    obtain ⟨d', hset, h'⟩ :=
      CompressingWriter.releasing_follows Piecemeal.writesAlike hc turns answer c' hrelease
    exact ⟨CompressingWriter.releasing_eq hrelease, d',
      hset.imp fun turns hturns => CompressingWriter.releasing_eq hturns, h'⟩
  decompressingWriter := holdsAlike_of_follows fun turns request _ _ hd =>
    DecompressingWriter.serve_follows Piecemeal.writesAlike hd turns request
  decompressingFinish hd turns :=
    DecompressingWriter.finish_follows Piecemeal.writesAlike hd turns

/-! ### A stream with and without interruptions -/

namespace Jerky

def make (_ : CompressorOptions) : Except Error (Recorded CopyingCodec) :=
  .ok ⟨⟨none, .ofBytes ⟨#[9]⟩⟩, #[]⟩

def source : Slice := .ofBytes ⟨#[1, 2, 3]⟩

def interruption : Interruption := ⟨.plain .interrupted "interrupted", rfl⟩

/-- Three bytes, into a writer that takes all it is offered. -/
def smooth : Ends (Interrupted Slice) (Piecemeal ByteArray) :=
  ⟨⟨source, [], fun _ => [], []⟩, ⟨.empty, [], 9, fun _ => ([], 9)⟩⟩

/-- The same three bytes, into a writer that takes them one by one, with interruptions. -/
def jerky : Ends (Interrupted Slice) (Piecemeal ByteArray) :=
  ⟨⟨source, [interruption, interruption], fun _ => [interruption], []⟩,
    ⟨.empty, [interruption], 0, fun _ => ([interruption], 0)⟩⟩

end Jerky

/-- What the smooth stream comes to, the jerky one comes to. -/
theorem interruptions_are_invisible_to_stream :
    let t := Stream.compress .machine Jerky.make 9 {} Jerky.smooth #[]
    ∃ t', Settles (fun turns => Stream.compress .machine Jerky.make turns {} Jerky.jerky #[]) t'
      ∧ t'.result = .ok () ∧ t'.codec = t.codec ∧ t'.ends.writer.sink = ⟨#[1, 2, 3, 9]⟩ := by
  have hends : Jerky.smooth.Both Faltering.Same Piecemeal.Same Jerky.jerky := ⟨rfl, rfl⟩
  have hok : (Stream.compress .machine Jerky.make 9 {} Jerky.smooth #[]).result = .ok () := rfl
  obtain ⟨t', hset, hbeside⟩ := interruptions_are_invisible.compress hends
    (show (Stream.compress .machine Jerky.make 9 {} Jerky.smooth #[]).result ≠ .error .outOfTurns by
      simp [hok])
  exact ⟨t', hset, hbeside.result, hbeside.codec, hbeside.ends.2⟩

end Zstandard
