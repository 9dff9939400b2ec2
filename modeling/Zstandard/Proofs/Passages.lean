import Zstandard.Proofs.Callers
import Zstandard.Proofs.Decompression
import Zstandard.Proofs.DigestingAdapters

/-!
# Passages: the ways for some bytes to go

Bytes go through a codec in one shot, through a stream from a reader to a writer, through a writer
that serves requests, or through a reader that is read into rooms of any sizes. A passage is one of
these ways, with everything but the codec, the options and the number of turns. `Brings` says that
it brings a given source, from ends that may be relied on, and `Granted` that it is granted what it
asks memory for.

Decompression through any passage comes to one end over a codec that digests the source
(`decompress_settles`), and what it comes to with success is what the codec puts out
(`decompress_ok`).
-/

namespace Zstandard

/-- A reader that gives `s` and then no more. -/
def Delivers {ρ : Type} [Reader ρ] (reader : ρ) (s : List UInt8) : Prop :=
  ∃ still : List UInt8 → ρ → Prop, Supplies still ∧ still s reader

/-- A writer that does not fail. -/
def Accepts {ω : Type} [Writer ω] (writer : ω) : Prop :=
  ∃ fine : ω → Prop, Obliges fine ∧ fine writer

theorem delivers_slice (s : Slice) : Delivers s s.toList := ⟨_, supplies_slice, rfl⟩

theorem accepts_bytes (b : ByteArray) : Accepts b := ⟨_, obliges_bytes, trivial⟩

/-- A way for some bytes to go through a codec. -/
inductive Passage : Type 1 where
  | oneShot (data : ByteArray)
  | stream {ρ ω : Type} [Reader ρ] [Writer ω] (reader : ρ) (writer : ω)
  | writer {ω : Type} [Writer ω] (writer : ω) (requests : List Request)
  | reader {ρ : Type} [Reader ρ] (reader : ρ) (rooms : Nat → Nat)

namespace Passage

/-- The passage brings `source`, and its ends do not fail. -/
def Brings : Passage → List UInt8 → Prop
  | .oneShot data, source => data.data.toList = source
  | @stream _ _ _ _ r w, source => Delivers r source ∧ Accepts w
  | @writer _ _ w requests, source => requested requests = source ∧ Accepts w
  | @reader _ _ r rooms, source => Delivers r source ∧ ∀ k, rooms k ≠ 0

/-- What the passage asks memory for on its way to `size` bytes of output is granted. -/
def Granted (p : Passage) (memory : Memory) (sourceLength destinationLength size : Nat) : Prop :=
  match p with
  | .oneShot _ => memory.Grows destinationLength size
  | @stream _ _ _ _ _ _ => memory.Serves sourceLength destinationLength
  | @writer _ _ _ _ => memory.grants destinationLength = true
  | @reader _ _ _ _ => memory.Serves sourceLength destinationLength

/-- The memory of a machine grants it, if all of it fits into an address space. -/
theorem granted_machine (p : Passage) {sourceLength destinationLength size : Nat}
    (hsource : sourceLength < 2 ^ 62) (hdestination : size + destinationLength < 2 ^ 62) :
    p.Granted .machine sourceLength destinationLength size := by
  have hgrows : Memory.machine.Grows destinationLength size := .machine hdestination
  have hserves : Memory.machine.Serves sourceLength destinationLength :=
    ⟨decide_eq_true hsource, hgrows.grants_unit⟩
  cases p with
  | oneShot data => exact hgrows
  | stream reader writer => exact hserves
  | writer writer requests => exact hserves.destination
  | reader reader rooms => exact hserves

section Run

variable {κ : Type} [Codec κ]

/-- Decompresses what the passage brings. -/
def decompress (p : Passage) (memory : Memory) (make : DecompressorOptions → Except Error κ)
    (o : DecompressorOptions) (log : Log) (turns : Nat) : Except (Halt Error) (List UInt8) :=
  match p with
  | .oneShot data =>
    (OneShot.decompress memory make turns o data log).result.map fun bytes => bytes.data.toList
  | @stream _ _ _ _ r w =>
    let t := Stream.decompress memory make turns o (Observed.new (Ends.mk r w)) log
    t.result.map fun _ => acceptedBy t.ends.calls
  | @writer _ _ w requests =>
    match DecompressingWriter.create memory make o (Observed.new w) log with
    | (.error e, _) => .error (.failed e)
    | (.ok d, _) =>
      match serveEach (fun turns d s => d.write turns s)
        (fun _ d => (fun r => (r.1.mapError .failed, r.2)) d.flush) turns d requests with
      | .error h => .error h
      | .ok d =>
        match d.finish turns with
        | (.ok (), d) => .ok (acceptedBy d.writer.calls)
        | (.error h, _) => .error h
  | @reader _ _ r rooms =>
    match DecompressingReader.create memory make o (Observed.new r) log with
    | (.error e, _) => .error (.failed e)
    | (.ok d, _) => readEvery (fun turns d room => d.read turns room) rooms turns 0 d []

end Run

end Passage

/-! ## Decompression -/

namespace DecompressingWriter

variable {κ ω : Type} [Codec κ] [Writer ω] {start : κ} {source : List UInt8}

/-- A writer that has been fed the source up to what is still requested. -/
def Awaits (start : κ) (source : List UInt8) (requests : List Request)
    (d : DecompressingWriter κ (Observed ω)) : Prop :=
  ∃ calls, Relayed start calls d ∧ Each (Feeds source) calls
    ∧ takenBy calls ++ requested requests = source

theorem Awaits.written {s : Slice} {rest : List Request}
    {d d' : DecompressingWriter κ (Observed ω)} {turns n : Nat}
    (h : Awaits start source (.write s :: rest) d) (hw : d.write turns s = (.ok n, d')) :
    Awaits start source (.write (s.drop n) :: rest) d' := by
  obtain ⟨calls, hrelayed, hfeeds, hsource⟩ := h
  obtain ⟨calls', hrelayed', htaken, hkeeps⟩ := write_ok hrelayed hw
  have hinput : takenBy calls ++ s.toList <+: source := by
    rw [requested_cons, Request.bytes, ← List.append_assoc] at hsource
    exact ⟨_, hsource⟩
  refine ⟨calls', hrelayed', hkeeps source hfeeds hinput, ?_⟩
  rw [← hsource, htaken, requested_cons, requested_cons, Request.bytes, Request.bytes,
    Slice.toList_drop, List.append_assoc, ← List.append_assoc (s.toList.take n),
    List.take_append_drop]

omit [Writer ω] in
theorem Awaits.passed {s : Slice} {rest : List Request} {d : DecompressingWriter κ (Observed ω)}
    (h : Awaits start source (.write s :: rest) d) (hs : s.isEmpty = true) :
    Awaits start source rest d := by
  obtain ⟨calls, hrelayed, hfeeds, hsource⟩ := h
  rw [requested_cons, Request.bytes, toList_of_isEmpty hs, List.nil_append] at hsource
  exact ⟨calls, hrelayed, hfeeds, hsource⟩

theorem Awaits.flushed {rest : List Request} {d d' : DecompressingWriter κ (Observed ω)}
    (h : Awaits start source (.flush :: rest) d)
    (hw : (d.flush.1.mapError Halt.failed, d.flush.2) = (.ok (), d')) :
    Awaits start source rest d' := by
  obtain ⟨calls, hrelayed, hfeeds, hsource⟩ := h
  have hflush : d.flush = (.ok (), d') := by
    cases hd : d.flush with
    | mk result d₁ =>
        rw [hd] at hw
        cases result with
        | ok => cases hw; rfl
        | error e => cases hw
  exact ⟨calls, flush_ok hrelayed hflush, hfeeds, hsource⟩

/-- A write comes to an end, and brings the writer closer to having served its requests. -/
theorem Awaits.write_settles {bound : Nat} {fine : ω → Prop} (hcodec : Digests start source bound)
    (hfine : Obliges fine) {s : Slice} {rest : List Request}
    {d : DecompressingWriter κ (Observed ω)} (h : Awaits start source (.write s :: rest) d)
    (hd : fine d.writer.ends) (hne : s.isEmpty = false) :
    ∃ n d', Settles (fun turns => d.write turns s) (.ok n, d') ∧ n ≠ 0
      ∧ Awaits start source (.write (s.drop n) :: rest) d' ∧ fine d'.writer.ends := by
  have hawaits := h
  obtain ⟨calls, hrelayed, hfeeds, hsource⟩ := h
  rw [requested_cons, Request.bytes, ← List.append_assoc] at hsource
  obtain ⟨n, d', hwrite, hd', hn⟩ := DecompressingWriter.write_settles hcodec hfine hrelayed
    hfeeds ⟨_, hsource⟩ hd hne
  obtain ⟨turns, hturns⟩ := hwrite.reached
  exact ⟨n, d', hwrite, hn, hawaits.written hturns, hd'⟩

/-- A flush comes to an end. -/
theorem Awaits.flush_settles {fine : ω → Prop} (hfine : Obliges fine) {rest : List Request}
    {d : DecompressingWriter κ (Observed ω)} (h : Awaits start source (.flush :: rest) d)
    (hd : fine d.writer.ends) :
    ∃ d', (d.flush.1.mapError Halt.failed, d.flush.2) = (.ok (), d')
      ∧ Awaits start source rest d' ∧ fine d'.writer.ends := by
  obtain ⟨inner, hinner, hfine'⟩ := hfine.flush hd
  have hflush : (d.flush.1.mapError Halt.failed, d.flush.2)
      = (.ok (), (⟨⟨inner, d.writer.calls ++ [EndCall.flush (.ok ())]⟩, d.session⟩ :
        DecompressingWriter κ (Observed ω))) := by
    obtain ⟨⟨ends, calls⟩, session⟩ := d
    simp only [DecompressingWriter.flush, Observed.flush_of (o := ⟨ends, calls⟩) hinner]
    rfl
  exact ⟨_, hflush, h.flushed hflush, hfine'⟩

end DecompressingWriter

namespace DecompressingReader

variable {κ ρ : Type} [Codec κ] {start : κ} {source : List UInt8}

/-- A reader that goes on, over a reader that still gives the rest of the source. -/
def Draws (start : κ) (still : List UInt8 → ρ → Prop) (source served : List UInt8)
    (d : DecompressingReader κ (Observed ρ)) : Prop :=
  ∃ calls rest, Serving start calls served d ∧ Provided still source rest d

theorem Draws.length_le {bound : Nat} {still : List UInt8 → ρ → Prop}
    (hcodec : Digests start source bound) {served : List UInt8}
    {d : DecompressingReader κ (Observed ρ)} (h : Draws start still source served d) :
    served.length ≤ bound := by
  obtain ⟨calls, rest, hserving, hprovided⟩ := h
  have hbounded := hcodec.bounded (hserving.feeding.mono ⟨rest, hprovided.source_eq⟩)
  rw [hserving.output_eq, List.length_append] at hbounded
  omega

theorem Draws.read_settles [Reader ρ] {bound : Nat} {still : List UInt8 → ρ → Prop}
    (hcodec : Digests start source bound) (hstill : Supplies still) {served : List UInt8}
    {d : DecompressingReader κ (Observed ρ)} (h : Draws start still source served d) {room : Nat}
    (hroom : room ≠ 0) :
    (∃ b d', Settles (fun turns => d.read turns room) (.ok b, d')
        ∧ (b.size ≠ 0 → Draws start still source (served ++ b.data.toList) d')
        ∧ (b.size = 0 → True))
      ∨ (∃ d' e, Settles (fun turns => d.read turns room) (.error (.failed e), d')
        ∧ ∃ e', e = Error.toIoError e' ∧ Truncated start source e') := by
  obtain ⟨calls, rest, hserving, hprovided⟩ := h
  rcases DecompressingReader.read_settles hcodec hstill hserving hprovided hroom with
    ⟨b, d', hsettles, hpost⟩ | ⟨d', e, hsettles, hpost⟩
  · refine Or.inl ⟨b, d', hsettles, fun hne => ?_, fun _ => trivial⟩
    rcases hpost with ⟨hzero, -⟩ | ⟨-, hnext⟩
    · exact absurd hzero hne
    · exact hnext
  · exact Or.inr ⟨d', e.toIoError, hsettles, e, rfl, hpost⟩

/-- A new reader draws on the reader behind. -/
theorem draws_new {still : List UInt8 → ρ → Prop} {reader : ρ} (start : κ)
    (hreader : still source reader)
    {sourceLength destinationLength : Nat} (hsource : 0 < sourceLength)
    (hdestination : 0 < destinationLength) :
    Draws start still source [] (⟨.new reader, ⟨.empty, 0, sourceLength⟩,
      ⟨start, ⟨.empty, destinationLength⟩, .active⟩, .empty, false, false, false⟩ :
      DecompressingReader κ (Observed ρ)) := by
  refine ⟨[], source, ⟨⟨.nil, rfl, rfl, ⟨Nat.le_refl 0, Nat.zero_le _⟩, rfl, hdestination, rfl⟩,
    ?_, ?_, ?_, ?_, rfl⟩, ⟨⟨hreader, rfl, hsource⟩, ?_⟩⟩ <;> simp [Observed.new, Unended]

end DecompressingReader

/-- What has been decompressed is decoded, and may end. -/
theorem Decompressed.decodes {κ : Type} [Codec κ] {start codec : κ} {source x : List UInt8}
    {calls : List StepCall} (h : Decompressed start calls source x codec)
    (hfeeds : Each (Feeds source) calls) :
    Decodes start source x codec ∧ Codec.endOfInput codec = .ok () :=
  ⟨⟨calls, ⟨h.steps, hfeeds, h.succeeded⟩, h.quiescent, h.taken, h.given.symm⟩, h.endOfInput⟩

namespace Passage

variable {κ : Type} [Codec κ] {memory : Memory} {make : DecompressorOptions → Except Error κ}
  {o : DecompressorOptions} {log : Log} {source : List UInt8}

section Success

variable {turns : Nat} {x : List UInt8}

theorem decodes_oneShot {data : ByteArray} (hp : (oneShot data).Brings source)
    (h : (oneShot data).decompress memory make o log turns = .ok x) :
    ∃ start codec, make o = .ok start ∧ Decodes start source x codec
      ∧ Codec.endOfInput codec = .ok () := by
  obtain rfl : data.data.toList = source := hp
  simp only [decompress] at h
  cases hresult : (OneShot.decompress memory make turns o data log).result with
  | error e => rw [hresult] at h; cases h
  | ok bytes =>
      rw [hresult] at h
      cases h
      obtain ⟨start, calls, codec, hmake, -, hd, hfeeds⟩ := OneShot.decompress_ok rfl hresult
      exact ⟨start, codec, hmake, hd.decodes hfeeds⟩

theorem decodes_stream {ρ ω : Type} [Reader ρ] [Writer ω] {r : ρ} {w : ω}
    (hp : (stream r w).Brings source)
    (h : (stream r w).decompress memory make o log turns = .ok x) :
    ∃ start codec, make o = .ok start ∧ Decodes start source x codec
      ∧ Codec.endOfInput codec = .ok () := by
  obtain ⟨⟨still, hstill, hreader⟩, fine, hfine, hwriter⟩ := hp
  simp only [decompress] at h
  cases hresult : (Stream.decompress memory make turns o
      (Observed.new (Ends.mk r w)) log).result with
  | error e => rw [hresult] at h; cases h
  | ok =>
      rw [hresult] at h
      cases h
      obtain ⟨start, calls, codec, hmake, -, hd, hfeeds, -, hreceived⟩ :=
        Stream.decompress_ok rfl hresult
      -- the two ends are one value here, and each keeps its own promise
      have hsource := hreceived (Reliable still fine) source hstill.beside
        (fun rest => hfine.beside still rest) ⟨hreader, hwriter⟩
      rw [hsource] at hd hfeeds
      exact ⟨start, codec, hmake, hd.decodes hfeeds⟩

theorem decodes_writer {ω : Type} [Writer ω] {w : ω} {requests : List Request}
    (hp : (writer w requests).Brings source)
    (h : (writer w requests).decompress memory make o log turns = .ok x) :
    ∃ start codec, make o = .ok start ∧ Decodes start source x codec
      ∧ Codec.endOfInput codec = .ok () := by
  obtain ⟨hrequests, -⟩ := hp
  simp only [decompress] at h
  split at h
  · cases h
  next first log' hcreate =>
  obtain ⟨start, hmake, rfl⟩ := DecompressingWriter.create_ok hcreate
  split at h
  · cases h
  next d hserve =>
  have hfirst := DecompressingWriter.relayed_new start w o.destinationLength_pos
  obtain ⟨calls, hrelayed, hfeeds, hsource⟩ := serveEach_ok
    (Q := DecompressingWriter.Awaits start source) (fun hq hw => hq.written hw)
    (fun hq hs => hq.passed hs) (fun hq hw => hq.flushed hw) requests
    ⟨[], hfirst, each_nil, hrequests⟩ hserve
  rw [requested_nil, List.append_nil] at hsource
  split at h
  · next d' hfinish =>
    cases h
    obtain ⟨calls', hd⟩ := DecompressingWriter.finish_ok hrelayed hfinish
    have hempty : takenBy calls ++ Slice.empty.toList <+: source :=
      ⟨[], by rw [List.append_nil]; exact (List.append_nil _).trans hsource⟩
    exact ⟨start, d'.session.codec, hmake, ⟨calls', ⟨hd.steps, hd.keeps source hfeeds hempty,
      hd.succeeded⟩, hd.quiescent, hd.taken.trans hsource, hd.delivered.symm⟩, hd.endOfInput⟩
  · cases h

theorem decodes_reader {ρ : Type} [Reader ρ] {r : ρ} {rooms : Nat → Nat}
    (hp : (reader r rooms).Brings source)
    (h : (reader r rooms).decompress memory make o log turns = .ok x) :
    ∃ start codec, make o = .ok start ∧ Decodes start source x codec
      ∧ Codec.endOfInput codec = .ok () := by
  obtain ⟨⟨still, hstill, hreader⟩, hrooms⟩ := hp
  simp only [decompress] at h
  split at h
  · cases h
  next first log' hcreate =>
  obtain ⟨d, d', turns', j, b, hserved, hread, hsize⟩ := readEvery_ok
    (P := DecompressingReader.Served first) (fun hq hr => .read hq hr) turns .nil h
  obtain ⟨start, calls, hmake, hd, hfeeds, -, hreceived⟩ :=
    DecompressingReader.served_ok hcreate hserved hread (hrooms j) hsize
  have hsource := hreceived still source hstill hreader
  rw [hsource] at hd hfeeds
  exact ⟨start, d'.session.codec, hmake, hd.decodes hfeeds⟩

/-- **Success decodes the source**, through any passage. -/
theorem decompress_ok (p : Passage) (hp : p.Brings source)
    (h : p.decompress memory make o log turns = .ok x) :
    ∃ start codec, make o = .ok start ∧ Decodes start source x codec
      ∧ Codec.endOfInput codec = .ok () := by
  cases p with
  | oneShot data => exact decodes_oneShot hp h
  | stream reader writer => exact decodes_stream hp h
  | writer writer requests => exact decodes_writer hp h
  | reader reader rooms => exact decodes_reader hp h

end Success

section Settles

variable {start : κ} {bound : Nat}

theorem settles_oneShot (hcodec : Digests start source bound) (ho : o.validate = .ok ())
    (hmemory : memory.Grows o.destinationLength bound) (hmake : make o = .ok start)
    {data : ByteArray} (hp : (oneShot data).Brings source) :
    (∃ x, Settles ((oneShot data).decompress memory make o log) (.ok x))
      ∨ (∃ e, Settles ((oneShot data).decompress memory make o log) (.error (.failed e))
        ∧ Truncated start source e) := by
  obtain rfl : data.data.toList = source := hp
  obtain ⟨log', hopens⟩ := OneShot.decompress_opens ho hmemory.grants_unit hmake data log
  have hfed := OneShot.fed_new start (.ofBytes data) log' o.destinationLength_pos
  rw [Slice.toList_ofBytes] at hfed
  obtain ⟨o₁, hfeed⟩ := OneShot.feedFrames_settles hcodec hfed hmemory
  obtain ⟨turns, hturns⟩ := hfeed.reached
  obtain ⟨calls, hfeeding, htaken, -, hquiescent⟩ :=
    (OneShot.feedFrames_ensures turns hfed).of_ok hturns
  cases hend : Codec.endOfInput o₁.codec with
  | ok =>
      refine Or.inl ⟨o₁.destination.bytes.data.toList, hfeed.imp fun turns hrun => ?_⟩
      simp only [decompress, hopens, bind_of_ok hrun, OneShot.endOfInput, hend]
      rfl
  | error e =>
      refine Or.inr ⟨e, hfeed.imp fun turns hrun => ?_, _, o₁.codec,
        ⟨calls, hfeeding, hquiescent, htaken, rfl⟩, hend⟩
      simp only [decompress, hopens, bind_of_ok hrun, OneShot.endOfInput, hend]
      rfl

theorem settles_stream {ρ ω : Type} [Reader ρ] [Writer ω] (hcodec : Digests start source bound)
    (ho : o.validate = .ok ()) (hmemory : memory.Serves o.sourceLength o.destinationLength)
    (hmake : make o = .ok start) {r : ρ} {w : ω} (hp : (stream r w).Brings source) :
    (∃ x, Settles ((stream r w).decompress memory make o log) (.ok x))
      ∨ (∃ e, Settles ((stream r w).decompress memory make o log) (.error (.failed e))
        ∧ Truncated start source e) := by
  obtain ⟨⟨still, hstill, hreader⟩, fine, hfine, hwriter⟩ := hp
  obtain ⟨log', hopens⟩ :=
    Stream.decompress_opens ho hmemory hmake (Observed.new (Ends.mk r w)) log
  have hfed := Pump.fed_new start (Ends.mk r w) log' o.sourceLength o.destinationLength_pos
  obtain ⟨p₁, hread, hp₁, hreceived⟩ := Pump.readSource_settles hcodec hstill.beside
    (fun rest => hfine.beside still rest) hfed unended_nil ⟨hreader, hwriter⟩ rfl
    o.sourceLength_pos
  -- the run that is reached is one that succeeds, so what a success ensures holds of its end
  obtain ⟨turns, hturns⟩ := hread.reached
  obtain ⟨-, hnil, calls, hfed₁, hquiescent⟩ :=
    (Pump.readSource_ensures turns hfed unended_nil).of_ok hturns
  have htaken : takenBy calls = source := by
    rw [← hreceived, hfed₁.source, hnil, List.append_nil]
  cases hend : Codec.endOfInput p₁.codec with
  | ok =>
      obtain ⟨p₂, hcomplete, -⟩ := Pump.complete_settles (hfine.beside still []) hp₁
      have hends : Pump.endOfInput p₁ = .ok () p₁ := by simp only [Pump.endOfInput, hend]
      refine Or.inl ⟨acceptedBy p₂.ends.calls, hread.imp₂ hcomplete fun turns hn hm => ?_⟩
      simp only [decompress, hopens, bind_of_ok hn, bind_of_ok hends, hm]
      rfl
  | error e =>
      have hends : Pump.endOfInput p₁ = .error (.failed e) p₁ := by
        simp only [Pump.endOfInput, hend]
      refine Or.inr ⟨e, hread.imp fun turns hrun => ?_, _, p₁.codec,
        ⟨calls, ⟨hfed₁.steps, hreceived ▸ hfed₁.feeds, hfed₁.succeeded⟩, hquiescent, htaken, rfl⟩,
        hend⟩
      simp only [decompress, hopens, bind_of_ok hrun, bind_of_error hends]
      rfl

theorem settles_writer {ω : Type} [Writer ω] (hcodec : Digests start source bound)
    (ho : o.validate = .ok ()) (hmemory : memory.grants o.destinationLength = true)
    (hmake : make o = .ok start) {w : ω} {requests : List Request}
    (hp : (writer w requests).Brings source) :
    (∃ x, Settles ((writer w requests).decompress memory make o log) (.ok x))
      ∨ (∃ e, Settles ((writer w requests).decompress memory make o log) (.error (.failed e))
        ∧ Truncated start source e) := by
  obtain ⟨hrequests, fine, hfine, hwriter⟩ := hp
  obtain ⟨log', hopens⟩ :=
    DecompressingWriter.create_opens ho hmemory hmake (Observed.new w) log
  have hfirst := DecompressingWriter.relayed_new start w o.destinationLength_pos
  obtain ⟨d, hserve, ⟨calls, hrelayed, hfeeds, hsource⟩, hd⟩ := serveEach_settles
    (Q := fun rest d => DecompressingWriter.Awaits start source rest d ∧ fine d.writer.ends)
    (fun hq hne => hq.1.write_settles hcodec hfine hq.2 hne)
    (fun hq hs => ⟨hq.1.passed hs, hq.2⟩)
    (fun hq => (hq.1.flush_settles hfine hq.2).imp fun _ h => ⟨⟨0, fun _ _ => h.1⟩, h.2⟩)
    requests ⟨⟨[], hfirst, each_nil, hrequests⟩, hwriter⟩
  rw [requested_nil, List.append_nil] at hsource
  rcases DecompressingWriter.finish_settles hcodec hfine hrelayed hfeeds hsource hd with
    ⟨d', hfinish⟩ | ⟨d', e, hfinish, hend⟩
  · refine Or.inl ⟨acceptedBy d'.writer.calls, hserve.imp₂ hfinish fun turns hn hm => ?_⟩
    simp only [decompress, hopens, hn, hm]
  · refine Or.inr ⟨e, hserve.imp₂ hfinish fun turns hn hm => ?_, hend⟩
    simp only [decompress, hopens, hn, hm]

theorem settles_reader {ρ : Type} [Reader ρ] (hcodec : Digests start source bound)
    (hend : ∀ (codec : κ) (e : Error), Codec.endOfInput codec = .error e → e.ioCause? = none)
    (ho : o.validate = .ok ()) (hmemory : memory.Serves o.sourceLength o.destinationLength)
    (hmake : make o = .ok start) {r : ρ} {rooms : Nat → Nat} (hp : (reader r rooms).Brings source) :
    (∃ x, Settles ((reader r rooms).decompress memory make o log) (.ok x))
      ∨ (∃ e, Settles ((reader r rooms).decompress memory make o log) (.error (.failed e))
        ∧ Truncated start source e) := by
  obtain ⟨⟨still, hstill, hreader⟩, hrooms⟩ := hp
  obtain ⟨log', hopens⟩ :=
    DecompressingReader.create_opens ho hmemory hmake (Observed.new r) log
  rcases readEvery_settles
    (Q := DecompressingReader.Draws start still source) hrooms (fun hq => hq.length_le hcodec)
    (fun hq hroom => hq.read_settles hcodec hstill hroom) (k := 0)
    (DecompressingReader.draws_new start hreader o.sourceLength_pos
      o.destinationLength_pos) with
    ⟨out, hsettles, -⟩ | ⟨_, hsettles, e, rfl, htruncated⟩
  · refine Or.inl ⟨out, hsettles.imp fun turns hrun => ?_⟩
    simp only [decompress, hopens, hrun]
  · obtain ⟨given, codec, hdecodes, he⟩ := htruncated
    -- the failure went through an input or output error, and comes back as it was
    rw [Error.ofIoError_toIoError (hend codec e he)] at hsettles
    refine Or.inr ⟨e, hsettles.imp fun turns hrun => ?_, given, codec, hdecodes, he⟩
    simp only [decompress, hopens, hrun]

/-- **Decompression of a digestible source comes to an end**, through any passage: it succeeds, or
fails because the source may not end where it does. -/
theorem decompress_settles (hcodec : Digests start source bound)
    (hend : ∀ (codec : κ) (e : Error), Codec.endOfInput codec = .error e → e.ioCause? = none)
    (ho : o.validate = .ok ()) (hmake : make o = .ok start) (p : Passage) (hp : p.Brings source)
    (hmemory : p.Granted memory o.sourceLength o.destinationLength bound) (log : Log) :
    (∃ x, Settles (p.decompress memory make o log) (.ok x))
      ∨ (∃ e, Settles (p.decompress memory make o log) (.error (.failed e))
        ∧ Truncated start source e) := by
  cases p with
  | oneShot data => exact settles_oneShot hcodec ho hmemory hmake hp
  | stream reader writer => exact settles_stream hcodec ho hmemory hmake hp
  | writer writer requests => exact settles_writer hcodec ho hmemory hmake hp
  | reader reader rooms => exact settles_reader hcodec hend ho hmemory hmake hp

end Settles

end Passage

end Zstandard
