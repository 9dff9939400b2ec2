import Zstandard.FileSystem
import Zstandard.Proofs.PumpsAlike

/-!
# Open files beside ends in memory

An open pair of files that is read to the end and written from the start does what a slice and an
array do in memory: the slice with the contents of the source, the array as empty as the new
destination (`Mirrors`). Writing is always alike. Reading is alike as long as the destination is
another file; if it is the source, what was written can be read again.
-/

namespace Zstandard

/-! ## Nodes under paths -/

namespace FileSystem

/-- What is dropped for one path is not missed under another. -/
theorem lookup_filter_of_ne {path other : String} (h : other ≠ path)
    (nodes : List (String × Node)) :
    (nodes.filter (·.1 != path)).lookup other = nodes.lookup other := by
  induction nodes with
  | nil => rfl
  | cons entry rest ih =>
      obtain ⟨key, node⟩ := entry
      by_cases hkey : key = path
      · have hother : (other == key) = false := by simpa [hkey] using h
        rw [List.filter_cons_of_neg (by simp [hkey]), ih, List.lookup_cons, hother]
      · rw [List.filter_cons_of_pos (by simp [hkey]), List.lookup_cons, List.lookup_cons, ih]

variable {f f' : FileSystem} {path other : String} {bytes contents : ByteArray}

@[simp] theorem node?_put (f : FileSystem) (path : String) (bytes : ByteArray) :
    (f.put path bytes).node? path = some (.file bytes) := by
  simp [node?, put]

/-- A file is put under one path alone. -/
theorem node?_put_of_ne (h : other ≠ path) (f : FileSystem) (bytes : ByteArray) :
    (f.put path bytes).node? other = f.node? other := by
  have hother : (other == path) = false := by simpa using h
  rw [node?, put, List.lookup_cons, hother]
  exact lookup_filter_of_ne h f.nodes

theorem contents?_eq_some_iff :
    f.contents? path = some bytes ↔ f.node? path = some (.file bytes) := by
  unfold contents?
  split
  · next heq => simp [heq]
  · next hnone =>
    refine ⟨fun h => (by cases h), fun h => absurd h (hnone bytes)⟩

@[simp] theorem contents?_put (f : FileSystem) (path : String) (bytes : ByteArray) :
    (f.put path bytes).contents? path = some bytes :=
  contents?_eq_some_iff.mpr (node?_put f path bytes)

theorem contents?_congr (h : f'.node? path = f.node? path) :
    f'.contents? path = f.contents? path := by
  simp only [contents?, h]

/-- Where a file can be created, none has been left standing: it is empty, and no other node has
changed. -/
theorem create_ok (h : f.create path = .ok f') :
    f' = f.put path .empty ∧ f.node? path ≠ some .directory := by
  unfold create at h
  split at h
  · cases h
  · next hnode =>
    cases h
    exact ⟨rfl, by rw [hnode]; nofun⟩
  · next hnode =>
    split at h <;> cases h
    exact ⟨rfl, by rw [hnode]; nofun⟩

end FileSystem

/-! ## Reading and writing -/

namespace OpenFiles

variable {o : OpenFiles} {bytes was : ByteArray}

/-- A read gives the next bytes of the source. -/
theorem read_of (h : o.files.contents? o.source = some was) (room : Nat) :
    Reader.read o room = (.ok (was.extract o.readAt (o.readAt + room)),
      { o with readAt := o.readAt + (was.extract o.readAt (o.readAt + room)).size }) := by
  show o.read room = _
  unfold read
  rw [FileSystem.contents?_eq_some_iff.mp h]

/-- A write at the end of the destination puts everything behind its contents. -/
theorem write_of (h : o.files.contents? o.destination = some bytes) (hend : o.writeAt = bytes.size)
    (s : Slice) :
    Writer.write o s = (.ok s.size,
      { o with files := o.files.put o.destination (s.appendTo bytes),
               writeAt := o.writeAt + s.size }) := by
  show o.write s = _
  have hhead : bytes.extract 0 o.writeAt = bytes := by rw [hend, ByteArray.extract_zero_size]
  have hrest : bytes.extract (o.writeAt + s.size) bytes.size = .empty := by
    rw [hend]
    exact ByteArray.extract_eq_empty_iff.mpr (by omega)
  unfold write
  rw [h]
  dsimp only
  rw [hhead, hrest, ByteArray.append_empty]

end OpenFiles

/-! ## Beside memory -/

/-- What is left to read of a source with the contents `was` once its destination has been made
empty: nothing, if the two are one file. -/
def Files.left (source destination : String) (was : ByteArray) : ByteArray :=
  if source = destination then .empty else was

/-- Open files beside a slice and an array: the array has accepted what the destination holds, and
the slice still has what the source has, unless that is the destination. -/
structure Mirrors (source destination : String) (was : ByteArray) (o : OpenFiles)
    (x : Observed (Ends Slice ByteArray)) : Prop where
  /-- The first path is read from. -/
  source_eq : o.source = source
  /-- The second is written to. -/
  destination_eq : o.destination = destination
  /-- It holds what was accepted, and is written at its end. -/
  written : ∃ bytes, o.files.contents? destination = some bytes ∧ o.writeAt = bytes.size
    ∧ bytes.data.toList = acceptedBy x.calls
  /-- Another file than the destination is as it was, and has been read as far as the slice. -/
  unread : source ≠ destination → o.files.contents? source = some was
    ∧ x.ends.reader.toList = was.data.toList.drop o.readAt

namespace Mirrors

variable {source destination : String} {was : ByteArray} {o : OpenFiles}
  {x : Observed (Ends Slice ByteArray)}

/-- **Writing is alike**, also where it goes over what was to be read. -/
theorem writesAlike : WritesAlike (Mirrors source destination was) := by
  refine writesAlike_of_write ?_ ?_
  · rintro o x ⟨rfl, rfl, ⟨bytes, hbytes, hend, haccepted⟩, hunread⟩ s
    obtain ⟨⟨reader, writer⟩, calls⟩ := x
    have hwrite : Writer.write (⟨reader, writer⟩ : Ends Slice ByteArray) s
        = (.ok s.size, ⟨reader, s.appendTo writer⟩) := rfl
    refine ⟨.ok s.size, _, _, OpenFiles.write_of hbytes hend s, Observed.write_of hwrite, rfl, rfl,
      ⟨s.appendTo bytes, FileSystem.contents?_put _ _ _, ?_, ?_⟩, fun hne => ?_⟩
    · rw [Slice.appendTo_eq, ByteArray.size_append, hend]
      exact congrArg (bytes.size + ·) s.length_toList.symm
    · rw [Slice.appendTo_eq, ByteArray.data_append, Array.toList_append, haccepted,
        acceptedBy_append, acceptedBy_cons, acceptedBy_nil, List.append_nil]
      refine congrArg (acceptedBy calls ++ ·) ?_
      exact (List.take_of_length_le (Nat.le_of_eq s.length_toList)).symm
    · -- another path keeps its file
      exact ⟨(FileSystem.contents?_congr (FileSystem.node?_put_of_ne hne _ _)).trans
        (hunread hne).1, (hunread hne).2⟩
  · rintro o x ⟨hsource, hdestination, ⟨bytes, hbytes, hend, haccepted⟩, hunread⟩
    obtain ⟨⟨reader, writer⟩, calls⟩ := x
    have hflush : Writer.flush (⟨reader, writer⟩ : Ends Slice ByteArray)
        = (.ok (), ⟨reader, writer⟩) := rfl
    refine ⟨.ok (), o, _, rfl, Observed.flush_of hflush, hsource, hdestination,
      ⟨bytes, hbytes, hend, ?_⟩, hunread⟩
    rw [haccepted, acceptedBy_append]
    exact (List.append_nil _).symm

/-- A read takes nothing from what was accepted. -/
theorem written_read {room : Nat} {result : Except IoError ByteArray} {calls : List EndCall}
    {bytes : ByteArray} (h : bytes.data.toList = acceptedBy calls) :
    bytes.data.toList = acceptedBy (calls ++ [.read room result]) := by
  rw [h, acceptedBy_append]
  exact (List.append_nil _).symm

/-- **Reading is alike** as long as the destination is another file. -/
theorem readsAlike (hne : source ≠ destination) : ReadsAlike (Mirrors source destination was) := by
  refine readsAlike_of_read ?_
  rintro o x ⟨rfl, rfl, ⟨bytes, hbytes, hend, haccepted⟩, hunread⟩ room
  obtain ⟨⟨reader, writer⟩, calls⟩ := x
  obtain ⟨hwas, hreader⟩ := hunread hne
  dsimp only at hreader
  have hread : Reader.read (⟨reader, writer⟩ : Ends Slice ByteArray) room
      = (.ok (reader.take room).toBytes, ⟨reader.drop room, writer⟩) := rfl
  have hchunk : was.extract o.readAt (o.readAt + room) = (reader.take room).toBytes := by
    refine ByteArray.ext (Array.toList_inj.mp ?_)
    rw [ByteArray.data_extract, Array.toList_extract, List.extract_eq_take_drop,
      Nat.add_sub_cancel_left, ← hreader]
    exact (Slice.toList_take reader room).symm
  have hfile := OpenFiles.read_of hwas room
  rw [hchunk] at hfile
  refine ⟨_, _, _, hfile, Observed.read_of hread, rfl, rfl,
    ⟨bytes, hbytes, hend, written_read haccepted⟩, fun _ => ⟨hwas, ?_⟩⟩
  -- where less was read than asked for, both are at their end
  have hsize : (reader.take room).toBytes.size = min room (was.data.toList.length - o.readAt) := by
    show (reader.take room).toList.length = _
    rw [Slice.toList_take, hreader, List.length_take, List.length_drop]
  dsimp only
  rw [Slice.toList_drop, hreader, List.drop_drop, hsize]
  rcases Nat.le_total room (was.data.toList.length - o.readAt) with hle | hle
  · rw [Nat.min_eq_left hle]
  · rw [List.drop_eq_nil_of_le (by omega), List.drop_eq_nil_of_le (by omega)]

/-- The slice and the array beside files that have just been opened. -/
def memory (source destination : String) (was : ByteArray) : Observed (Ends Slice ByteArray) :=
  .new ⟨.ofBytes (Files.left source destination was), .empty⟩

/-- Files that have just been opened. -/
def opened (files : FileSystem) (source destination : String) : OpenFiles :=
  ⟨files.put destination .empty, source, 0, destination, 0⟩

/-- Files that have just been opened are beside the slice and the array. -/
theorem opened_memory {files : FileSystem} (destination : String)
    (hwas : files.contents? source = some was) :
    Mirrors source destination was (opened files source destination)
      (memory source destination was) := by
  refine ⟨rfl, rfl, ⟨.empty, FileSystem.contents?_put _ _ _, rfl, rfl⟩, fun hne => ⟨?_, ?_⟩⟩
  · exact (FileSystem.contents?_congr (FileSystem.node?_put_of_ne hne _ _)).trans hwas
  · simp only [memory, Observed.new, Files.left, if_neg hne, Slice.toList_ofBytes, opened,
      List.drop_zero]

/-- **A pump starts alike** on them. Where the destination is the source, this holds because the
source is read once, before anything is written, and has nothing left by then. -/
theorem starts {κ : Type} [Codec κ] {files : FileSystem}
    (hwas : files.contents? source = some was) :
    Pump.StartsAlike κ (Mirrors source destination was) (opened files source destination)
      (memory source destination was) := by
  by_cases hsame : source = destination
  · refine Pump.startsAlike_of_dry writesAlike fun {room} _ => ?_
    subst hsame
    obtain ⟨-, -, ⟨bytes, hbytes, hend, haccepted⟩, -⟩ := opened_memory source hwas
    have hempty : (opened files source source).files.contents? source = some .empty :=
      FileSystem.contents?_put _ _ _
    have hread :
        Reader.read (Ends.mk (Slice.ofBytes (Files.left source source was)) ByteArray.empty) room
          = (.ok ((Slice.ofBytes (Files.left source source was)).take room).toBytes,
            ⟨(Slice.ofBytes (Files.left source source was)).drop room, .empty⟩) := rfl
    refine ⟨_, _, _, _, OpenFiles.read_of hempty room, ?_, Observed.read_of hread, ?_, rfl, rfl,
      ⟨bytes, hbytes, hend, written_read haccepted⟩, fun hne => absurd rfl hne⟩
    · simp
    · show ((Slice.ofBytes (Files.left source source was)).take room).toList.length = 0
      simp [Files.left]
  · exact Pump.startsAlike (readsAlike hsame) writesAlike (opened_memory destination hwas)

end Mirrors

end Zstandard
