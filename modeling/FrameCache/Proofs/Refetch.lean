import Mathlib
import FrameCache.Proofs.SteppedFetch
import FrameCache.Proofs.Directory
import FrameCache.Proofs.PartitionFile

/-!
# Fetching twice

A second fetch of the same window, from a source whose answer depends only on the window, asks
the same questions, returns the same answer and leaves a cache with the same file names, the same
partitions and the same frames under each name (`fetch_again_same`), whatever wall-clock times
the two fetches stamp on the files they write.

Storing a frame writes its bytes under a temporary name and moves them to the partition's name;
on the directory that installs the partition's file in place of the name and removes the
temporary one (`Directory.install`, `Cache.store_eq_ok_iff`). Neither the walk of a fetch nor a
single question reads the cache, so with such a source the second run repeats the first,
question for question and partition for partition, each partition rewritten as the same frame
made at another time (`Fetch.walk_replay`, `Cache.Rewrites`). Installing the rewritten
partitions over the first ones, in the same order, leaves every name where it was and every
entry either as it was or holding a rewrite of its file (`Directory.installAll_installAll_rel`):
after the first time every partition's name is in place and every temporary name is gone, so
each write replaces a file in place. A rewrite decodes to the same frame, since only the header's
creation time differs and the header reads back whatever that time is
(`PartitionCodec.exists_decode_encode_iff`), so the listing and every read agree
(`Cache.read_iff_of_rel`, `Cache.get_of_rel`).
-/

namespace FrameCache

namespace Directory

/-- A partition written through a temporary file: the bytes go to the temporary name and are
then moved to the partition's name. -/
structure Install where
  tmp : String
  name : String
  data : ByteArray

/-- The directory after a partition is installed: its file under its name, and the temporary
name gone. -/
def install (d : Directory) (w : Install) : Directory := (d.erase w.tmp).put w.name (.file w.data)

/-- The directory after partitions are installed one after another. -/
def installAll (d : Directory) (ws : List Install) : Directory := ws.foldl install d

/-- No temporary name of the partitions is the name of one of them. -/
def TempsApart (ws : List Install) : Prop := ∀ a ∈ ws, ∀ b ∈ ws, a.tmp ≠ b.name

/-- No partition or temporary name is a subdirectory, so that writing and moving succeed. -/
def NoFolderAt (d : Directory) (ws : List Install) : Prop :=
  ∀ w ∈ ws, d.lookup? w.tmp ≠ some .folder ∧ d.lookup? w.name ≠ some .folder

/-- Every partition has an entry under its name and no temporary file is left. -/
structure InPlace (d : Directory) (ws : List Install) : Prop where
  present : ∀ w ∈ ws, (d.lookup? w.name).isSome
  no_tmp : ∀ w ∈ ws, d.lookup? w.tmp = none

/-- An entry after a partition is written in place: its file if the entry has its name. -/
def setIn (w : Install) (m : String × Entry) : String × Entry :=
  if m.1 == w.name then (w.name, .file w.data) else m

/-- An entry after partitions are written in place one after another. -/
def setAll (ws : List Install) (m : String × Entry) : String × Entry := ws.foldl (fun m w => setIn w m) m

variable {d : Directory} {w : Install} {ws : List Install} {n : String} {m : String × Entry}

@[simp] theorem installAll_nil : d.installAll [] = d := rfl

@[simp] theorem installAll_cons : d.installAll (w :: ws) = (d.install w).installAll ws := rfl

theorem installAll_append_single : d.installAll (ws ++ [w]) = (d.installAll ws).install w := by
  rw [installAll, List.foldl_append]
  rfl

@[simp] theorem lookup?_install :
    (d.install w).lookup? n =
      if n = w.name then some (.file w.data) else if n = w.tmp then none else d.lookup? n := by
  simp only [install, lookup?_put, lookup?_erase]

theorem setAll_append_single : setAll (ws ++ [w]) m = setIn w (setAll ws m) := by
  rw [setAll, List.foldl_append]
  rfl

theorem fst_setIn : (setIn w m).1 = m.1 := by
  unfold setIn
  split
  · rename_i h
    exact (beq_iff_eq.1 h).symm
  · rfl

theorem fst_setAll : ∀ {ws : List Install} {m : String × Entry}, (setAll ws m).1 = m.1
  | [], _ => rfl
  | w :: ws, m => by
    change (setAll ws (setIn w m)).1 = m.1
    rw [fst_setAll, fst_setIn]

/-- An entry of a directory after a write is the written file or an entry of another name. -/
theorem mem_put {e : Entry} (h : m ∈ (d.put n e).entries) : m = (n, e) ∨ (m ∈ d.entries ∧ m.1 ≠ n) := by
  unfold put at h
  split at h
  · obtain ⟨m', hm', rfl⟩ := List.mem_map.1 h
    by_cases hn : m'.1 = n
    · exact .inl (by simp [hn])
    · exact .inr ⟨by simpa [hn] using hm', by simp [hn]⟩
  · rcases List.mem_append.1 h with hm | hm
    · refine .inr ⟨hm, fun hn => ?_⟩
      rename_i hany
      exact hany (List.any_eq_true.2 ⟨m, hm, by simp [hn]⟩)
    · exact .inl (List.mem_singleton.1 hm)

/-- An entry of a directory after an installation is the partition's file or an entry of
another name. -/
theorem mem_install (h : m ∈ (d.install w).entries) :
    m = (w.name, .file w.data) ∨ (m ∈ d.entries ∧ m.1 ≠ w.name) := by
  rcases mem_put h with h | ⟨h, hn⟩
  · exact .inl h
  · exact .inr ⟨(List.mem_filter.1 h).1, hn⟩

/-! ### No subdirectory in the way -/

/-- An installation puts a file or nothing where it writes, and leaves every other name. -/
theorem lookup?_install_ne_folder (h : d.lookup? n ≠ some .folder) (w' : Install) :
    (d.install w').lookup? n ≠ some .folder := by
  rw [lookup?_install]
  split_ifs <;> simp [h]

theorem NoFolderAt.install (h : d.NoFolderAt ws) (w' : Install) : (d.install w').NoFolderAt ws :=
  fun w hw => ⟨lookup?_install_ne_folder (h w hw).1 w', lookup?_install_ne_folder (h w hw).2 w'⟩

/-- A name a run installs or removes is a file or nothing afterwards. -/
theorem noFolderAt_installAll (d : Directory) (ws : List Install) : (d.installAll ws).NoFolderAt ws := by
  induction ws using List.reverseRecOn with
  | nil => simp [NoFolderAt]
  | append_singleton ws w ih =>
    intro a ha
    rw [installAll_append_single]
    rcases List.mem_append.1 ha with ha | ha
    · exact (ih.install w) a ha
    · rw [List.mem_singleton.1 ha]
      constructor
      · rw [lookup?_install]
        split <;> simp
      · simp

/-! ### Installing in place -/

theorem InPlace.mono {ws' : List Install} (h : d.InPlace ws) (hsub : ∀ a ∈ ws', a ∈ ws) :
    d.InPlace ws' :=
  ⟨fun a ha => h.present a (hsub a ha), fun a ha => h.no_tmp a (hsub a ha)⟩

/-- An installation keeps every partition in place and adds its own, where no temporary name
is the name of a partition. -/
theorem InPlace.install (hapart : TempsApart (w :: ws)) (h : d.InPlace ws) :
    (d.install w).InPlace (w :: ws) where
  present a ha := by
    have hat : a.name ≠ w.tmp := fun heq => hapart w List.mem_cons_self a ha heq.symm
    rw [lookup?_install, if_neg hat]
    split
    · rfl
    · rcases List.mem_cons.1 ha with rfl | ha
      · contradiction
      · exact h.present a ha
  no_tmp a ha := by
    have han : a.tmp ≠ w.name := hapart a ha w List.mem_cons_self
    rw [lookup?_install, if_neg han]
    split
    · rfl
    · rcases List.mem_cons.1 ha with rfl | ha
      · contradiction
      · exact h.no_tmp a ha

/-- After a run of installations every partition is in place. -/
theorem inPlace_installAll (hapart : TempsApart ws) (d : Directory) : (d.installAll ws).InPlace ws := by
  induction ws using List.reverseRecOn with
  | nil => exact ⟨by simp, by simp⟩
  | append_singleton ws w ih =>
    have hsame : ∀ a, a ∈ w :: ws ↔ a ∈ ws ++ [w] := by simp [or_comm]
    have hapart' : TempsApart (w :: ws) := fun a ha b hb => hapart a ((hsame a).1 ha) b ((hsame b).1 hb)
    have hprev := ih fun a ha b hb => hapart a (List.mem_append_left _ ha) b (List.mem_append_left _ hb)
    rw [installAll_append_single]
    exact (hprev.install hapart').mono fun a ha => (hsame a).2 ha

/-- Installing a partition whose name has an entry, and whose temporary name has none, writes
its file in place. -/
theorem install_of_present (hn : (d.lookup? w.name).isSome) (ht : d.lookup? w.tmp = none) :
    d.install w = ⟨d.entries.map (setIn w)⟩ := by
  have hany : d.entries.any (·.1 == w.name) = true := by
    obtain ⟨e, he⟩ := Option.isSome_iff_exists.1 hn
    exact List.any_eq_true.2 ⟨(w.name, e), mem_of_lookup?_eq_some he, by simp⟩
  rw [install, erase_of_lookup?_eq_none ht, put, if_pos hany]
  rfl

/-- Installing partitions that are all in place writes each in place, entry by entry. -/
theorem installAll_of_inPlace : ∀ {d : Directory} {ws : List Install}, TempsApart ws → d.InPlace ws →
    d.installAll ws = ⟨d.entries.map (setAll ws)⟩
  | d, [], _, _ => congrArg Directory.mk (List.map_id d.entries).symm
  | d, w :: ws, hapart, h => by
    have hrest : TempsApart ws := fun a ha b hb =>
      hapart a (List.mem_cons_of_mem _ ha) b (List.mem_cons_of_mem _ hb)
    have hnext : (d.install w).InPlace ws :=
      ((h.mono fun a ha => List.mem_cons_of_mem _ ha).install hapart).mono
        fun a ha => List.mem_cons_of_mem _ ha
    rw [installAll_cons, installAll_of_inPlace hrest hnext,
      install_of_present (h.present w List.mem_cons_self) (h.no_tmp w List.mem_cons_self), List.map_map]
    rfl

/-- After a run of installations every entry holds the last file written under its name. -/
theorem setAll_of_mem_installAll (d : Directory) (ws : List Install) :
    ∀ m ∈ (d.installAll ws).entries, setAll ws m = m := by
  induction ws using List.reverseRecOn with
  | nil => simp [setAll]
  | append_singleton ws w ih =>
    intro m hm
    rw [installAll_append_single] at hm
    rw [setAll_append_single]
    rcases mem_install hm with rfl | ⟨hm, hn⟩
    · -- the partition's own entry: earlier writes keep the name, the last one sets the file
      have hkey : (setAll ws (w.name, Entry.file w.data)).1 == w.name := by
        rw [fst_setAll]
        exact beq_self_eq_true _
      rw [setIn, if_pos hkey]
    · rw [ih m hm, setIn, if_neg (by simpa using hn)]

/-! ### Installing again -/

/-- Entries under one name that are the same, or the files of two installations related by `R`. -/
def EntryRel (R : Install → Install → Prop) (x y : String × Entry) : Prop :=
  x.1 = y.1 ∧ (x.2 = y.2 ∨ ∃ a b, R a b ∧ x.2 = .file a.data ∧ y.2 = .file b.data)

section Again

variable {R : Install → Install → Prop} {ws' : List Install}

theorem entryRel_refl (x : String × Entry) : EntryRel R x x := ⟨rfl, .inl rfl⟩

/-- Writing in place two related installations under one name keeps entries related. -/
theorem EntryRel.setIn {a b : Install} {x y : String × Entry} (hab : R a b) (hname : a.name = b.name)
    (h : EntryRel R x y) : EntryRel R (setIn a x) (setIn b y) := by
  unfold Directory.setIn
  rw [h.1, hname]
  split_ifs
  · exact ⟨rfl, .inr ⟨a, b, hab, rfl, rfl⟩⟩
  · exact h

/-- Writing in place, one after another, installations related one to one under the same
names keeps entries related. -/
theorem EntryRel.setAll (hname : ∀ a b, R a b → a.name = b.name) :
    ∀ {ws ws' : List Install}, List.Forall₂ R ws ws' → ∀ {x y : String × Entry}, EntryRel R x y →
      EntryRel R (setAll ws x) (setAll ws' y)
  | _, _, .nil, _, _, h => h
  | _, _, .cons hab hrest, _, _, h => EntryRel.setAll hname hrest (h.setIn hab (hname _ _ hab))

/-- Related entries have the same names in the same order. -/
theorem map_fst_of_forall₂ :
    ∀ {l l' : List (String × Entry)}, List.Forall₂ (EntryRel R) l l' → l'.map Prod.fst = l.map Prod.fst
  | _, _, .nil => rfl
  | _, _, .cons hxy h => by rw [List.map_cons, List.map_cons, hxy.1, map_fst_of_forall₂ h]

theorem lookup?_of_forall₂ :
    ∀ {l l' : List (String × Entry)}, List.Forall₂ (EntryRel R) l l' → ∀ n,
      lookup? ⟨l'⟩ n = lookup? ⟨l⟩ n ∨
        ∃ a b, R a b ∧ lookup? ⟨l⟩ n = some (.file a.data) ∧ lookup? ⟨l'⟩ n = some (.file b.data)
  | _, _, .nil, _ => .inl rfl
  | x :: _, y :: _, .cons hxy h, n => by
    rw [lookup?_mk_cons, lookup?_mk_cons, ← hxy.1]
    split
    · rcases hxy.2 with hsame | ⟨a, b, hab, ha, hb⟩
      · exact .inl (by rw [hsame])
      · exact .inr ⟨a, b, hab, by rw [ha], by rw [hb]⟩
    · exact lookup?_of_forall₂ h n

/-- Directories with related entries give related entries under every name: the same, or the
files of two related installations. -/
theorem lookup?_of_rel {d d' : Directory} (h : List.Forall₂ (EntryRel R) d.entries d'.entries) (n : String) :
    d'.lookup? n = d.lookup? n ∨
      ∃ a b, R a b ∧ d.lookup? n = some (.file a.data) ∧ d'.lookup? n = some (.file b.data) :=
  lookup?_of_forall₂ h n

variable (hR : ∀ a b, R a b → a.name = b.name ∧ a.tmp = b.tmp) (h : List.Forall₂ R ws ws')
include hR h

/-- An installation related to one of a run has its names. -/
theorem exists_of_mem_right {b : Install} (hb : b ∈ ws') : ∃ a ∈ ws, a.name = b.name ∧ a.tmp = b.tmp :=
  let ⟨a, ha, hab⟩ := Frame.exists_of_forall₂_of_mem_right h hb
  ⟨a, ha, hR a b hab⟩

theorem TempsApart.rel (hapart : TempsApart ws) : TempsApart ws' := by
  intro a ha b hb
  obtain ⟨a', ha', -, htmp⟩ := exists_of_mem_right hR h ha
  obtain ⟨b', hb', hname, -⟩ := exists_of_mem_right hR h hb
  rw [← htmp, ← hname]
  exact hapart a' ha' b' hb'

theorem InPlace.rel (hin : d.InPlace ws) : d.InPlace ws' where
  present b hb := by
    obtain ⟨a, ha, hname, -⟩ := exists_of_mem_right hR h hb
    rw [← hname]
    exact hin.present a ha
  no_tmp b hb := by
    obtain ⟨a, ha, -, htmp⟩ := exists_of_mem_right hR h hb
    rw [← htmp]
    exact hin.no_tmp a ha

theorem NoFolderAt.rel (hfree : d.NoFolderAt ws) : d.NoFolderAt ws' := by
  intro b hb
  obtain ⟨a, ha, hname, htmp⟩ := exists_of_mem_right hR h hb
  rw [← hname, ← htmp]
  exact hfree a ha

/-- Installing a second time, in the same order, partitions related one to one to those of a run
and under their names writes each in place: the directory keeps its entries in order, each the
same or the file of a related installation. -/
theorem installAll_installAll_rel (hapart : TempsApart ws) (d : Directory) :
    List.Forall₂ (EntryRel R) (d.installAll ws).entries ((d.installAll ws).installAll ws').entries := by
  rw [installAll_of_inPlace (hapart.rel hR h) ((inPlace_installAll hapart d).rel hR h)]
  refine List.forall₂_map_right_iff.2 (List.forall₂_same.2 fun m hm => ?_)
  -- every entry already holds the last file installed under its name
  have hrel := EntryRel.setAll (fun a b hab => (hR a b hab).1) h (entryRel_refl m)
  rwa [setAll_of_mem_installAll d ws m hm] at hrel

end Again

end Directory

namespace Partition

/-- A partition's file name ends with the partition extension. -/
theorem fileName_eq_ok {s e : Timestamp} {name : String} (h : fileName s e = .ok name) :
    ∃ stem, name = stem ++ "." ++ extension := by
  unfold fileName at h
  cases hs : stem s e with
  | error flt => simp [hs, bind, Except.bind] at h
  | ok st =>
    simp only [hs, bind, Except.bind, pure, Except.pure, Except.ok.injEq] at h
    exact ⟨st, h.symm⟩

/-- No temporary name, which ends with ".tmp", is the name of a partition. -/
theorem tmp_ne_fileName {s e : Timestamp} {name : String} (h : fileName s e = .ok name) (x : String) :
    "." ++ x ++ ".tmp" ≠ name := by
  obtain ⟨stem, rfl⟩ := fileName_eq_ok h
  intro heq
  have hlast := congrArg (fun t : String => t.toList.getLast?) heq
  simp only [String.toList_append, extension] at hlast
  rw [List.getLast?_append, List.getLast?_append] at hlast
  simp at hlast

end Partition

namespace Cache

open Directory

/-- What storing a frame made at `now` writes: the partition named by the frame's first and last
timestamps, with its bytes, moved from the temporary name beside it. -/
structure Writes (f : Frame) (now : CreatedAt) (w : Install) : Prop where
  name : ∃ s e, f.first? = some s ∧ f.last? = some e ∧ Partition.fileName s e = .ok w.name
  tmp : w.tmp = "." ++ w.name ++ ".tmp"
  data : PartitionCodec.encode f now = .ok w.data
  legal_tmp : checkName w.tmp = .ok ()
  legal_name : checkName w.name = .ok ()

variable {f g : Frame} {t t' : CreatedAt} {a b : Install}

/-- The temporary name of one stored partition is not the name of another. -/
theorem Writes.tmp_ne (ha : Writes f t a) (hb : Writes g t' b) : a.tmp ≠ b.name := by
  obtain ⟨s, e, -, -, hname⟩ := hb.name
  rw [ha.tmp]
  exact Partition.tmp_ne_fileName hname _

/-- Two stores of one frame write under the same names. -/
theorem Writes.names_eq (ha : Writes f t a) (hb : Writes f t' b) : a.name = b.name ∧ a.tmp = b.tmp := by
  obtain ⟨s, e, hs, he, hna⟩ := ha.name
  obtain ⟨s', e', hs', he', hnb⟩ := hb.name
  rw [hs, Option.some.injEq] at hs'
  rw [he, Option.some.injEq] at he'
  subst hs' he'
  have hname : a.name = b.name := Except.ok.inj (hna.symm.trans hnb)
  exact ⟨hname, by rw [ha.tmp, hb.tmp, hname]⟩

/-- A partition a store writes at one time it writes at any other, under the same names. -/
theorem Writes.retime (ha : Writes f t a) (t' : CreatedAt) : ∃ b, Writes f t' b ∧ b.name = a.name ∧ b.tmp = a.tmp := by
  obtain ⟨first, last, hfirst, hlast, hnanos, -⟩ := PartitionCodec.encode_eq_ok ha.data
  exact ⟨⟨a.tmp, a.name, PartitionCodec.assemble (PartitionCodec.headerOf f first last
    (PartitionCodec.sectionsFrom 0 (PartitionCodec.bodyParts f)) t') (PartitionCodec.bodyParts f)⟩,
    { ha with data := PartitionCodec.encode_eq t' hfirst hlast hnanos }, rfl, rfl⟩

/-- The file a store writes is never empty: it has its preamble at least. -/
theorem Writes.size_pos (ha : Writes f t a) : 0 < a.data.size := by
  obtain ⟨first, last, -, -, -, hdata⟩ := PartitionCodec.encode_eq_ok ha.data
  rw [hdata, PartitionCodec.size_assemble]
  unfold PartitionCodec.preambleLength
  omega

/-- The partition of one frame written twice, at two times a clock can give at which its file
fits the format. -/
def Rewrites (a b : Install) : Prop :=
  ∃ f t t', t.Valid ∧ t'.Valid ∧ PartitionCodec.FileFits f t ∧ PartitionCodec.FileFits f t' ∧
    Writes f t a ∧ Writes f t' b

theorem Rewrites.names_eq (h : Rewrites a b) : a.name = b.name ∧ a.tmp = b.tmp :=
  let ⟨_, _, _, _, _, _, _, ha, hb⟩ := h
  ha.names_eq hb

theorem Rewrites.size_pos (h : Rewrites a b) : 0 < a.data.size ∧ 0 < b.data.size :=
  let ⟨_, _, _, _, _, _, _, ha, hb⟩ := h
  ⟨ha.size_pos, hb.size_pos⟩

/-- A partition rewritten is read as the same frame, or neither file is read. -/
theorem Rewrites.decode_iff (h : Rewrites a b) (g : Frame) :
    (∃ hd, PartitionCodec.decode a.data = .ok (hd, g)) ↔ ∃ hd, PartitionCodec.decode b.data = .ok (hd, g) :=
  let ⟨_, _, _, ht, ht', hfit, hfit', ha, hb⟩ := h
  PartitionCodec.exists_decode_encode_iff ha.data hb.data ht ht' hfit hfit'

theorem onFiles_eq (path : String) (step : Directory → Except IoFailure Directory) (c : Cache) :
    onFiles path step c = match step c.files with
      | .ok d => .ok () { c with files := d }
      | .error e => .error (.ioAt path e) c := by
  simp only [onFiles, getThe, MonadStateOf.get, EStateM.get, bind, EStateM.bind]
  cases step c.files <;> rfl

/-- Storing a frame that names a partition, with the bytes of its file made at `now`, writes
them to the temporary name and moves them to the partition's name. -/
theorem store_eq {now : CreatedAt} {c : Cache} {s e : Timestamp} {name : String} {bytes : ByteArray}
    (hs : f.first? = some s) (he : f.last? = some e) (hn : Partition.fileName s e = .ok name)
    (hb : PartitionCodec.encode f now = .ok bytes) :
    store now f c = (do
      onFiles (c.pathOf ("." ++ name ++ ".tmp")) fun x => x.writeFile ("." ++ name ++ ".tmp") bytes
      onFiles (c.pathOf name) fun x => x.rename ("." ++ name ++ ".tmp") name
      pure ⟨name, s, e⟩ : CacheM PartitionFile) c := by
  unfold store
  rw [hs, he]
  simp only [bind, EStateM.bind, getThe, MonadStateOf.get, EStateM.get, hn, hb, pure, EStateM.pure]

/-- A store that succeeds had a partition to write: the frame has a first and a last timestamp,
they name a partition, and the frame has the bytes of a file made at `now`. -/
theorem store_eq_ok_parts {now : CreatedAt} {c c' : Cache} {p : PartitionFile} (h : store now f c = .ok p c') :
    ∃ s e name bytes, f.first? = some s ∧ f.last? = some e ∧ Partition.fileName s e = .ok name ∧
      PartitionCodec.encode f now = .ok bytes := by
  unfold store at h
  cases hs : f.first? with
  | none => rw [hs] at h; cases h
  | some s =>
    cases he : f.last? with
    | none => rw [hs, he] at h; cases h
    | some e =>
      rw [hs, he] at h
      simp only [bind, EStateM.bind, getThe, MonadStateOf.get, EStateM.get] at h
      cases hn : Partition.fileName s e with
      | error flt => rw [hn] at h; cases h
      | ok name =>
        cases hb : PartitionCodec.encode f now with
        | error err => rw [hn, hb] at h; cases h
        | ok bytes => exact ⟨s, e, name, bytes, rfl, rfl, hn, rfl⟩

/-- Storing a frame whose partition can be written at `now`, with no subdirectory at its name or
its temporary name, installs the partition and answers it. -/
theorem store_of_writes {now : CreatedAt} {c : Cache} {w : Install} {s e : Timestamp}
    (hw : Writes f now w) (hs : f.first? = some s) (he : f.last? = some e)
    (hfolder : c.files.NoFolderAt [w]) :
    store now f c = .ok ⟨w.name, s, e⟩ { c with files := c.files.install w } := by
  obtain ⟨s', e', hs', he', hn⟩ := hw.name
  rw [hs] at hs'
  rw [he] at he'
  cases hs'
  cases he'
  obtain ⟨hft, hfn⟩ := hfolder w List.mem_cons_self
  have hne : w.tmp ≠ w.name := hw.tmp_ne hw
  have hput : c.files.writeFile w.tmp w.data = .ok (c.files.put w.tmp (.file w.data)) :=
    writeFile_eq_ok_iff.2 ⟨hw.legal_tmp, hft, rfl⟩
  have hmove : (c.files.put w.tmp (.file w.data)).rename w.tmp w.name = .ok (c.files.install w) := by
    refine rename_eq_ok_iff.2 ⟨hw.legal_tmp, hw.legal_name, .file w.data, by simp, ?_, ?_⟩
    · rw [lookup?_put, if_neg (Ne.symm hne)]
      exact hfn
    · rw [erase_put_self]
      rfl
  rw [store_eq hs he hn hw.data, ← hw.tmp]
  simp only [bind, EStateM.bind, onFiles_eq, hput, hmove, pure, EStateM.pure]

/-- Storing succeeds exactly when the frame has a partition to write at `now` and no
subdirectory stands at its name or its temporary name; the directory then has the partition
installed, and nothing else of the cache changes. -/
theorem store_eq_ok_iff {now : CreatedAt} {c c' : Cache} :
    (∃ p, store now f c = .ok p c') ↔
      ∃ w, Writes f now w ∧ c.files.NoFolderAt [w] ∧ c' = { c with files := c.files.install w } := by
  constructor
  · rintro ⟨p, h⟩
    obtain ⟨s, e, name, bytes, hs, he, hn, hb⟩ := store_eq_ok_parts h
    have hne : "." ++ name ++ ".tmp" ≠ name := Partition.tmp_ne_fileName hn name
    rw [store_eq hs he hn hb] at h
    simp only [bind, EStateM.bind, onFiles_eq] at h
    cases hw : c.files.writeFile ("." ++ name ++ ".tmp") bytes with
    | error err => rw [hw] at h; cases h
    | ok d₁ =>
      cases hr : d₁.rename ("." ++ name ++ ".tmp") name with
      | error err => rw [hw] at h; dsimp only at h; rw [hr] at h; cases h
      | ok d₂ =>
        rw [hw] at h
        dsimp only at h
        rw [hr] at h
        cases h
        obtain ⟨htmp, hfolder, rfl⟩ := writeFile_eq_ok_iff.1 hw
        obtain ⟨-, hname, entry, hentry, hfolder', rfl⟩ := rename_eq_ok_iff.1 hr
        -- the entry moved is the file just written
        rw [lookup?_put, if_pos rfl, Option.some.injEq] at hentry
        rw [lookup?_put, if_neg (Ne.symm hne)] at hfolder'
        refine ⟨⟨"." ++ name ++ ".tmp", name, bytes⟩, ⟨⟨s, e, hs, he, hn⟩, rfl, hb, htmp, hname⟩,
          fun w hw => ?_, ?_⟩
        · rw [List.mem_singleton.1 hw]
          exact ⟨hfolder, hfolder'⟩
        · rw [← hentry, erase_put_self]
          rfl
  · rintro ⟨w, hw, hfolder, rfl⟩
    obtain ⟨s, e, hs, he, -⟩ := hw.name
    exact ⟨_, store_of_writes hw hs he hfolder⟩

/-- A partition a store wrote, a store of the same frame at another time writes again, under
the same names, where no subdirectory stands in the way: the two files are rewrites of each
other. -/
theorem Writes.store_again {now now' : CreatedAt} {c : Cache} {w : Install} (hw : Writes f now w)
    (hnow : now.Valid) (hnow' : now'.Valid) (hfit : PartitionCodec.FileFits f now)
    (hfit' : PartitionCodec.FileFits f now') (hfree : c.files.NoFolderAt [w]) :
    ∃ w' p, Rewrites w w' ∧ store now' f c = .ok p { c with files := c.files.install w' } := by
  obtain ⟨w', hw', hname, htmp⟩ := hw.retime now'
  have hfree' : c.files.NoFolderAt [w'] := fun a ha => by
    rw [List.mem_singleton.1 ha, hname, htmp]
    exact hfree w List.mem_cons_self
  obtain ⟨p, hstore⟩ := store_eq_ok_iff.2 ⟨w', hw', hfree', rfl⟩
  exact ⟨w', p, ⟨f, now, now', hnow, hnow', hfit, hfit', hw, hw'⟩, hstore⟩

/-! ### Caches whose partitions were rewritten -/

/-- Related entries are listed as the same partition: the listing reads names and kinds only. -/
theorem filterMap_partitionOf?_of_forall₂ {R : Install → Install → Prop} :
    ∀ {l l' : List (String × Entry)}, List.Forall₂ (EntryRel R) l l' →
      l'.filterMap partitionOf? = l.filterMap partitionOf?
  | _, _, .nil => rfl
  | (n, x) :: _, (n', y) :: _, .cons hxy h => by
    obtain ⟨hn, hsame | ⟨a, b, -, rfl, rfl⟩⟩ := hxy
    · simp only at hn hsame
      subst hn hsame
      rw [List.filterMap_cons, List.filterMap_cons, filterMap_partitionOf?_of_forall₂ h]
    · simp only at hn
      subst hn
      rw [List.filterMap_cons, List.filterMap_cons, filterMap_partitionOf?_of_forall₂ h]
      rfl

section Rewritten

variable {c c' : Cache} (h : List.Forall₂ (EntryRel Rewrites) c.files.entries c'.files.entries)
  (hroot : c'.root = c.root)

include h in
/-- A cache whose partitions were rewritten lists the same partitions. -/
theorem partitions_of_rel : c'.partitions = c.partitions := by
  rw [FrameCache.partitions_eq, FrameCache.partitions_eq, filterMap_partitionOf?_of_forall₂ h]

include h hroot

/-- A cache whose partitions were rewritten reads every name as the same frame, or fails on it
as the other does. -/
theorem read_iff_of_rel (name : String) (g : Frame) :
    (∃ hd, c'.read name = .ok (hd, g)) ↔ ∃ hd, c.read name = .ok (hd, g) := by
  unfold Cache.read Directory.find Cache.pathOf
  rw [hroot]
  cases hc : checkName name with
  | error e => simp [bind, Except.bind]
  | ok u =>
    simp only [bind, Except.bind]
    rcases lookup?_of_rel h name with hsame | ⟨a, b, hab, ha, hb⟩
    · rw [hsame]
    · -- both files are written partitions, never empty, read as the same frame
      simp only [ha, hb, Nat.pos_iff_ne_zero.1 hab.size_pos.1, Nat.pos_iff_ne_zero.1 hab.size_pos.2, if_false,
        Except.mapError_eq_ok]
      exact (hab.decode_iff g).symm

/-- A cache whose partitions were rewritten answers a read of a window as the other does, where
the other's read succeeds. -/
theorem get_of_rel {start stop : Option Timestamp} {keys : Option (List String)} {r : Option Frame}
    (hget : c.get start stop keys = .ok r) : c'.get start stop keys = .ok r := by
  -- every partition the first cache reads, the second reads as the same frame
  have hreads : ∀ (ps : List PartitionFile) (gs : List Frame),
      ps.mapM (fun p => (c.read p.name).map (·.2)) = .ok gs →
        ps.mapM (fun p => (c'.read p.name).map (·.2)) = .ok gs := fun ps gs hm =>
    mapM_eq_ok_iff.2 ((mapM_eq_ok_iff.1 hm).imp fun p g hp => by
      obtain ⟨⟨hd, g'⟩, hr, rfl⟩ : ∃ x, c.read p.name = .ok x ∧ x.2 = g := by
        cases hr : c.read p.name <;> simp_all [Except.map]
      obtain ⟨hd', hr'⟩ := (read_iff_of_rel h hroot p.name g').2 ⟨hd, hr⟩
      rw [hr']
      rfl)
  unfold Cache.get at hget ⊢
  rw [partitions_of_rel h]
  cases ho : oldestOf c.partitions with
  | none => simpa only [ho] using hget
  | some o =>
  cases hn : newestOf c.partitions with
  | none => simpa only [ho, hn] using hget
  | some n =>
  simp only [ho, hn] at hget ⊢
  by_cases hes : stop.getD n < start.getD o
  · simpa only [hes, if_true] using hget
  simp only [hes, if_false] at hget ⊢
  obtain ⟨gs, hgs, hrest⟩ := Except.bind_eq_ok.1 hget
  rw [hreads _ gs hgs]
  exact hrest

end Rewritten

end Cache

namespace FetchState

open Directory

/-- The state after a run asked the questions `C` and installed the partitions `ws`. -/
def after (s : FetchState) (C : Array (Timestamp × Timestamp)) (ws : List Install) : FetchState :=
  ⟨{ s.cache with files := s.cache.files.installAll ws }, s.calls ++ C⟩

theorem after_nil (s : FetchState) : s.after #[] [] = s := by
  simp [FetchState.after]

/-- A question logged before a run joins the run's questions. -/
theorem after_push (s : FetchState) (x : Timestamp × Timestamp) (C : Array (Timestamp × Timestamp))
    (ws : List Install) : ({ s with calls := s.calls.push x } : FetchState).after C ws = s.after (#[x] ++ C) ws := by
  simp only [after, Array.push_eq_append, Array.append_assoc]

/-- A partition installed before a run joins the run's partitions. -/
theorem after_install (s : FetchState) (x : Timestamp × Timestamp) (w : Install)
    (C : Array (Timestamp × Timestamp)) (ws : List Install) :
    (⟨{ s.cache with files := s.cache.files.install w }, s.calls.push x⟩ : FetchState).after C ws =
      s.after (#[x] ++ C) (w :: ws) := by
  simp only [after, installAll_cons, Array.push_eq_append, Array.append_assoc]

end FetchState

namespace Fetch

open Directory Cache PartitionCodec

variable {q : Query} {clock : Clock} {stop : Timestamp} {step : TimeDelta}

/-- One round of the walk in state-passing form: past the end it stops; a chunk that the rows
fetched so far cover is passed over; otherwise the rest of the chunk is asked for and logged, and
a non-empty answer is stored, made at the clock's reading after that question, before the walk
goes on from where its rows end. -/
theorem walk_succ_eq (fuel : Nat) (t last : Timestamp) (s : FetchState) :
    walk q clock stop step (fuel + 1) t last s =
      if t < stop then
        match t.addDelta? step with
        | none => .error (.invalidConfiguration ("fetch step " ++ step.text ++ " from " ++ t.display
            ++ " leaves the representable time range")) s
        | some ce =>
          if ce ≤ t.later last then walk q clock stop step fuel ce last s
          else
            match q s.calls.size (t.later last) ce with
            | .error e => .error e { s with calls := s.calls.push (t.later last, ce) }
            | .ok none => walk q clock stop step fuel ce ce { s with calls := s.calls.push (t.later last, ce) }
            | .ok (some f) =>
              if f.isEmpty then walk q clock stop step fuel ce ce { s with calls := s.calls.push (t.later last, ce) }
              else
                match Cache.store (clock (s.calls.size + 1)) f s.cache with
                | .ok _ c => walk q clock stop step fuel ce (latest f ce) ⟨c, s.calls.push (t.later last, ce)⟩
                | .error e c => .error e ⟨c, s.calls.push (t.later last, ce)⟩
      else .ok () s := by
  rw [walk]
  by_cases ht : t < stop
  · rw [if_pos ht, if_pos ht]
    cases hce : t.addDelta? step with
    | none => rfl
    | some ce =>
      dsimp only
      by_cases hle : ce ≤ t.later last
      · rw [if_pos hle, if_pos hle]
      · rw [if_neg hle, if_neg hle]
        simp only [bind, EStateM.bind]
        rw [ask_eq]
        cases q s.calls.size (t.later last) ce with
        | error e => rfl
        | ok a =>
          cases a with
          | none => rfl
          | some f =>
            dsimp only
            by_cases hf : f.isEmpty = true
            · rw [if_pos hf, if_pos hf]
              rfl
            · rw [if_neg hf, if_neg hf]
              simp only [EStateM.bind, storeAnswer, discard, Functor.mapConst, Function.comp_apply,
                EStateM.map, onCache, Array.size_push]
              cases Cache.store (clock (s.calls.size + 1)) f s.cache <;> rfl
  · rw [if_neg ht, if_neg ht]
    rfl

/-- A source whose answer depends only on the window it is asked for, not on how many questions
came before. -/
def Deterministic (q : Query) : Prop := ∀ n m a b, q n a b = q m a b

/-- A clock for a source: every reading is a time the system clock can give, and the file of
every answer of the source, made at any reading, fits the format. -/
structure ClockFits (q : Query) (clock : Clock) : Prop where
  valid : ∀ k, (clock k).Valid
  fits : ∀ n a b f k, q n a b = .ok (some f) → FileFits f (clock k)

/-- A run of the walk from `t` with `fuel` rounds that asked the questions `C` and installed the
partitions `ws`, replayed: from any state with no subdirectory in the way of `ws`, and with any
clock that fits the source, the walk asks `C` again and installs `ws` rewritten, each partition
made at that clock's time. -/
def Replays (q : Query) (stop : Timestamp) (step : TimeDelta) (fuel : Nat) (t last : Timestamp)
    (C : Array (Timestamp × Timestamp)) (ws : List Install) : Prop :=
  ∀ (clock : Clock) (s : FetchState), ClockFits q clock → s.cache.files.NoFolderAt ws →
    ∃ ws' : List Install, List.Forall₂ Rewrites ws ws' ∧
      walk q clock stop step fuel t last s = .ok () (s.after C ws')

namespace Replays

/-! One lemma per way a round of the walk can go; `walk_replay` chains them. -/

variable {fuel : Nat} {t last ce : Timestamp} {C : Array (Timestamp × Timestamp)} {ws : List Install}

theorem zero : Replays q stop step 0 t last #[] [] := by
  intro clock s _ _
  exact ⟨[], .nil, by rw [FetchState.after_nil]; rfl⟩

/-- Past the end nothing is asked. -/
theorem past_end (ht : ¬ t < stop) : Replays q stop step (fuel + 1) t last #[] [] := by
  intro clock s _ _
  exact ⟨[], .nil, by rw [walk_succ_eq, if_neg ht, FetchState.after_nil]⟩

/-- A chunk that the rows fetched so far cover is passed over. -/
theorem pass (ht : t < stop) (hce : t.addDelta? step = some ce) (hle : ce ≤ t.later last)
    (h : Replays q stop step fuel ce last C ws) : Replays q stop step (fuel + 1) t last C ws := by
  intro clock s hclock hfree
  obtain ⟨ws', hrel, hrun⟩ := h clock s hclock hfree
  refine ⟨ws', hrel, ?_⟩
  rw [walk_succ_eq, if_pos ht, hce]
  dsimp only
  rw [if_pos hle]
  exact hrun

/-- A chunk asked for and answered with nothing. -/
theorem answer_none (ht : t < stop) (hce : t.addDelta? step = some ce) (hle : ¬ ce ≤ t.later last)
    (ha : ∀ n, q n (t.later last) ce = .ok none) (h : Replays q stop step fuel ce ce C ws) :
    Replays q stop step (fuel + 1) t last (#[(t.later last, ce)] ++ C) ws := by
  intro clock s hclock hfree
  obtain ⟨ws', hrel, hrun⟩ := h clock { s with calls := s.calls.push (t.later last, ce) } hclock hfree
  refine ⟨ws', hrel, ?_⟩
  rw [walk_succ_eq, if_pos ht, hce]
  dsimp only
  rw [if_neg hle, ha, ← FetchState.after_push]
  exact hrun

/-- A chunk asked for and answered with a frame of no rows. -/
theorem answer_empty {f : Frame} (ht : t < stop) (hce : t.addDelta? step = some ce) (hle : ¬ ce ≤ t.later last)
    (ha : ∀ n, q n (t.later last) ce = .ok (some f)) (hf : f.isEmpty = true)
    (h : Replays q stop step fuel ce ce C ws) :
    Replays q stop step (fuel + 1) t last (#[(t.later last, ce)] ++ C) ws := by
  intro clock s hclock hfree
  obtain ⟨ws', hrel, hrun⟩ := h clock { s with calls := s.calls.push (t.later last, ce) } hclock hfree
  refine ⟨ws', hrel, ?_⟩
  rw [walk_succ_eq, if_pos ht, hce]
  dsimp only
  rw [if_neg hle, ha]
  dsimp only
  rw [if_pos hf, ← FetchState.after_push]
  exact hrun

/-- A chunk asked for and answered with rows, whose partition the first run wrote at a time the
clock can give and at which its file fits: the replay writes it again at its own clock's time,
under the same names, and goes on from where the rows end. -/
theorem answer_rows {f : Frame} {now : CreatedAt} {w : Install} (ht : t < stop)
    (hce : t.addDelta? step = some ce) (hle : ¬ ce ≤ t.later last)
    (ha : ∀ n, q n (t.later last) ce = .ok (some f)) (hf : f.isEmpty = false)
    (hw : Writes f now w) (hnow : now.Valid) (hfit : FileFits f now)
    (h : Replays q stop step fuel ce (latest f ce) C ws) :
    Replays q stop step (fuel + 1) t last (#[(t.later last, ce)] ++ C) (w :: ws) := by
  intro clock s hclock hfree
  obtain ⟨w₂, p, hw₂, hstore⟩ := hw.store_again hnow (hclock.valid (s.calls.size + 1)) hfit
    (hclock.fits _ _ _ _ _ (ha 0)) fun a ha' => hfree a (List.mem_singleton.1 ha' ▸ List.mem_cons_self)
  obtain ⟨ws', hrel, hrun⟩ := h clock ⟨{ s.cache with files := s.cache.files.install w₂ },
    s.calls.push (t.later last, ce)⟩ hclock fun a ha' => (hfree.install w₂) a (List.mem_cons_of_mem _ ha')
  refine ⟨w₂ :: ws', .cons hw₂ hrel, ?_⟩
  rw [walk_succ_eq, if_pos ht, hce]
  dsimp only
  rw [if_neg hle, ha]
  dsimp only
  rw [if_neg (Bool.not_eq_true _ ▸ hf), hstore]
  dsimp only
  rw [← FetchState.after_install]
  exact hrun

end Replays

/-- A successful run of the walk asked some questions and installed some partitions, each the
store of an answer. From any state with no subdirectory in the way of those partitions, and with
any clock that fits it, a source that answers by the window alone makes the walk run the same:
the same questions, the same partitions rewritten. -/
theorem walk_replay (hq : Deterministic q) (hclock : ClockFits q clock) :
    ∀ (fuel : Nat) (t last : Timestamp) (s s' : FetchState), walk q clock stop step fuel t last s = .ok () s' →
      ∃ (C : Array (Timestamp × Timestamp)) (ws : List Install), s' = s.after C ws ∧
        (∀ w ∈ ws, ∃ f now, Writes f now w) ∧ Replays q stop step fuel t last C ws := by
  intro fuel
  -- the first run is taken apart round by round; each round's branch is replayed by its lemma
  induction fuel with
  | zero =>
    intro t last s s' h
    cases h
    exact ⟨#[], [], (FetchState.after_nil s).symm, by simp, Replays.zero⟩
  | succ fuel ih =>
    intro t last s s' h
    rw [walk_succ_eq] at h
    by_cases ht : t < stop
    swap
    · rw [if_neg ht] at h
      cases h
      exact ⟨#[], [], (FetchState.after_nil s).symm, by simp, Replays.past_end ht⟩
    rw [if_pos ht] at h
    cases hce : t.addDelta? step with
    | none => rw [hce] at h; cases h
    | some ce =>
      rw [hce] at h
      dsimp only at h
      by_cases hle : ce ≤ t.later last
      · rw [if_pos hle] at h
        obtain ⟨C, ws, rfl, hws, hrun⟩ := ih ce last s s' h
        exact ⟨C, ws, rfl, hws, Replays.pass ht hce hle hrun⟩
      rw [if_neg hle] at h
      cases ha : q s.calls.size (t.later last) ce with
      | error e => rw [ha] at h; cases h
      | ok a =>
        rw [ha] at h
        -- the second run gets the same answer to the same question
        have hask : ∀ n, q n (t.later last) ce = .ok a := fun n => (hq _ _ _ _).trans ha
        cases a with
        | none =>
          obtain ⟨C, ws, rfl, hws, hrun⟩ := ih ce ce _ s' h
          exact ⟨_, ws, FetchState.after_push s _ C ws, hws, Replays.answer_none ht hce hle hask hrun⟩
        | some f =>
          dsimp only at h
          by_cases hf : f.isEmpty = true
          · rw [if_pos hf] at h
            obtain ⟨C, ws, rfl, hws, hrun⟩ := ih ce ce _ s' h
            exact ⟨_, ws, FetchState.after_push s _ C ws, hws, Replays.answer_empty ht hce hle hask hf hrun⟩
          rw [if_neg hf] at h
          cases hst : Cache.store (clock (s.calls.size + 1)) f s.cache with
          | error e c => rw [hst] at h; cases h
          | ok p c =>
            rw [hst] at h
            dsimp only at h
            -- the answer is stored: its partition is installed
            obtain ⟨w, hw, -, rfl⟩ := Cache.store_eq_ok_iff.1 ⟨p, hst⟩
            obtain ⟨C, ws, rfl, hws, hrun⟩ := ih ce (latest f ce) _ s' h
            refine ⟨_, w :: ws, FetchState.after_install s _ w C ws, ?_,
              Replays.answer_rows ht hce hle hask (Bool.not_eq_true _ ▸ hf) hw (hclock.valid _)
                (hclock.fits _ _ _ _ _ ha) hrun⟩
            intro w' hw'
            rcases List.mem_cons.1 hw' with rfl | hw'
            · exact ⟨f, _, hw⟩
            · exact hws w' hw'

/-- The answer a fetch without a step returns for a non-empty frame: the frame, without the
repetitions of the `dedup` columns if it has them. -/
def reduced (f : Frame) (dedup : Option (List String)) : Except CacheError (Option Frame) :=
  match dedup with
  | some ks => ((f.dedup ks).mapError .frame).map some
  | none => .ok (some f)

/-- A fetch without a step in state-passing form: the question is logged, and a non-empty answer
is stored, made at the clock's reading after that question, and returned, reduced. -/
theorem fetchOnce_eq (start stop : Timestamp) (dedup : Option (List String)) (s : FetchState) :
    fetchOnce q clock start stop dedup s =
      match q s.calls.size start stop with
      | .error e => .error e { s with calls := s.calls.push (start, stop) }
      | .ok none => .ok none { s with calls := s.calls.push (start, stop) }
      | .ok (some f) =>
        if f.isEmpty then .ok none { s with calls := s.calls.push (start, stop) }
        else
          match Cache.store (clock (s.calls.size + 1)) f s.cache with
          | .ok _ c =>
            match reduced f dedup with
            | .ok r => .ok r ⟨c, s.calls.push (start, stop)⟩
            | .error e => .error e ⟨c, s.calls.push (start, stop)⟩
          | .error e c => .error e ⟨c, s.calls.push (start, stop)⟩ := by
  unfold fetchOnce
  simp only [bind, EStateM.bind]
  rw [ask_eq]
  cases q s.calls.size start stop with
  | error e => rfl
  | ok a =>
    cases a with
    | none => rfl
    | some f =>
      dsimp only
      by_cases hf : f.isEmpty = true
      · rw [if_pos hf, if_pos hf]
        rfl
      · rw [if_neg hf, if_neg hf]
        simp only [EStateM.bind, storeAnswer, discard, Functor.mapConst, Function.comp_apply, EStateM.map,
          onCache, Array.size_push]
        cases Cache.store (clock (s.calls.size + 1)) f s.cache with
        | error e c => rfl
        | ok p c =>
          dsimp only
          cases dedup with
          | none => rfl
          | some ks =>
            simp only [reduced, Functor.map, EStateM.map, lift]
            cases (f.dedup ks).mapError CacheError.frame <;> rfl

/-- A successful fetch without a step asked one question and installed at most one partition,
the store of its answer. From any state with no subdirectory in the way, and with any clock that
fits it, a source that answers by the window alone makes it run the same, the partition
rewritten. -/
theorem fetchOnce_replay (hq : Deterministic q) (hclock : ClockFits q clock) {start stop : Timestamp}
    {dedup : Option (List String)} {s s' : FetchState} {r : Option Frame}
    (h : fetchOnce q clock start stop dedup s = .ok r s') :
    ∃ ws : List Install, s' = s.after #[(start, stop)] ws ∧ (∀ w ∈ ws, ∃ f now, Writes f now w) ∧
      ∀ (clock₂ : Clock) (s₂ : FetchState), ClockFits q clock₂ → s₂.cache.files.NoFolderAt ws →
        ∃ ws₂ : List Install, List.Forall₂ Rewrites ws ws₂ ∧
          fetchOnce q clock₂ start stop dedup s₂ = .ok r (s₂.after #[(start, stop)] ws₂) := by
  have hask : ∀ s₂ : FetchState, q s₂.calls.size start stop = q s.calls.size start stop :=
    fun s₂ => hq _ _ _ _
  -- an answer that stores nothing logs the question and returns none
  have hlog : ∀ s₂ : FetchState, { s₂ with calls := s₂.calls.push (start, stop) } = s₂.after #[(start, stop)] [] :=
    fun s₂ => by simp only [FetchState.after, installAll_nil, Array.push_eq_append]
  rw [fetchOnce_eq] at h
  cases ha : q s.calls.size start stop with
  | error e => rw [ha] at h; cases h
  | ok a =>
    rw [ha] at h
    cases a with
    | none =>
      cases h
      refine ⟨[], hlog s, by simp, fun clock₂ s₂ _ _ => ⟨[], .nil, ?_⟩⟩
      rw [fetchOnce_eq, hask, ha, hlog]
    | some f =>
      dsimp only at h
      by_cases hf : f.isEmpty = true
      · rw [if_pos hf] at h
        cases h
        refine ⟨[], hlog s, by simp, fun clock₂ s₂ _ _ => ⟨[], .nil, ?_⟩⟩
        rw [fetchOnce_eq, hask, ha]
        dsimp only
        rw [if_pos hf, hlog]
      · rw [if_neg hf] at h
        cases hst : Cache.store (clock (s.calls.size + 1)) f s.cache with
        | error e c => rw [hst] at h; cases h
        | ok p c =>
          rw [hst] at h
          dsimp only at h
          obtain ⟨w, hw, -, rfl⟩ := store_eq_ok_iff.1 ⟨p, hst⟩
          cases hr : reduced f dedup with
          | error e => rw [hr] at h; cases h
          | ok r' =>
            rw [hr] at h
            cases h
            have hafter : ∀ (s₂ : FetchState) (w : Install),
                (⟨{ s₂.cache with files := s₂.cache.files.install w }, s₂.calls.push (start, stop)⟩ : FetchState) =
                  s₂.after #[(start, stop)] [w] := fun s₂ w => by
              simp only [FetchState.after, installAll_cons, installAll_nil, Array.push_eq_append]
            refine ⟨[w], hafter s w, fun w' hw' => ⟨f, _, List.mem_singleton.1 hw' ▸ hw⟩,
              fun clock₂ s₂ hclock₂ hfree => ?_⟩
            -- the second fetch writes the same partition at its own clock's time
            obtain ⟨w₂, p₂, hw₂, hstore⟩ := hw.store_again (hclock.valid _) (hclock₂.valid (s₂.calls.size + 1))
              (hclock.fits _ _ _ _ _ ha) (hclock₂.fits _ _ _ _ _ ha) hfree
            refine ⟨[w₂], .cons hw₂ .nil, ?_⟩
            rw [fetchOnce_eq, hask, ha]
            dsimp only
            rw [if_neg hf, hstore]
            dsimp only
            rw [hr, hafter]

/-- A fetch in usable steps in state-passing form: the walk, then a read of the cache. -/
theorem fetchSteps_eq (start stop : Timestamp) (span : Span) (dedup : Option (List String))
    (s : FetchState) :
    fetchSteps q clock start stop span (some step) dedup s =
      match walk q clock stop step (start.stepBound stop step) start start s with
      | .ok _ s' =>
        match s'.cache.get (some start) (some stop) dedup with
        | .ok r => .ok r s'
        | .error e => .error e s'
      | .error e s' => .error e s' := by
  simp only [fetchSteps, bind, EStateM.bind, getThe, MonadStateOf.get, EStateM.get]
  cases walk q clock stop step (start.stepBound stop step) start start s with
  | error e s' => rfl
  | ok u s' =>
    dsimp only
    cases s'.cache.get (some start) (some stop) dedup <;> rfl

/-- The partitions a run stores have temporary names apart from their names. -/
theorem tempsApart_of_writes {ws : List Install} (hws : ∀ w ∈ ws, ∃ f now, Writes f now w) :
    TempsApart ws := by
  intro a ha b hb
  obtain ⟨f, t, hfa⟩ := hws a ha
  obtain ⟨g, t', hgb⟩ := hws b hb
  exact hfa.tmp_ne hgb

/-- A run's stores leave no subdirectory in the way of storing them again. -/
theorem noFolderAt_after (s : FetchState) (C : Array (Timestamp × Timestamp)) (ws : List Install) :
    (s.after C ws).cache.files.NoFolderAt ws :=
  noFolderAt_installAll s.cache.files ws

/-- After a run's partitions are rewritten by a second run, the cache's entries are those the
first run left, each the same or rewritten. -/
theorem rel_after_after {ws ws₂ : List Install} (hws : ∀ w ∈ ws, ∃ f now, Writes f now w)
    (hrel : List.Forall₂ Rewrites ws ws₂) (s : FetchState) (C C' : Array (Timestamp × Timestamp)) :
    List.Forall₂ (EntryRel Rewrites) (s.after C ws).cache.files.entries
      ((s.after C ws).after C' ws₂).cache.files.entries :=
  installAll_installAll_rel (fun _ _ hab => hab.names_eq) hrel (tempsApart_of_writes hws) s.cache.files

/-- After a run's partitions are rewritten, the cache has the same entry names and partitions,
and reads every name as the same frame. -/
theorem same_after_after {ws ws₂ : List Install} (hws : ∀ w ∈ ws, ∃ f now, Writes f now w)
    (hrel : List.Forall₂ Rewrites ws ws₂) (s : FetchState) (C C' : Array (Timestamp × Timestamp)) :
    ((s.after C ws).after C' ws₂).cache.files.entries.map Prod.fst = (s.after C ws).cache.files.entries.map Prod.fst ∧
      ((s.after C ws).after C' ws₂).cache.partitions = (s.after C ws).cache.partitions ∧
      ∀ name g, (∃ hd, ((s.after C ws).after C' ws₂).cache.read name = .ok (hd, g)) ↔
        ∃ hd, (s.after C ws).cache.read name = .ok (hd, g) :=
  have h := rel_after_after hws hrel s C C'
  ⟨map_fst_of_forall₂ h, partitions_of_rel h, read_iff_of_rel h rfl⟩

/-- Fetching the same window again, from a source whose answer depends only on the window, with
or without a step, and with clocks whose readings are valid times at which the source's answers
fit the format: when the first fetch succeeds, the second asks the same questions in the same
order, leaves the same entries and partitions under the same names, each read as the same frame
as after the first, and returns the same answer. The files themselves may differ, in the
creation time their headers hold. -/
theorem fetch_again_same (hq : Deterministic q) {clock₂ : Clock} (hclock : ClockFits q clock)
    (hclock₂ : ClockFits q clock₂) {start stop : Timestamp} {opts : FetchOptions} {s s₁ : FetchState}
    {r : Option Frame} (h : fetch q clock start stop opts s = .ok r s₁) :
    ∃ (C : Array (Timestamp × Timestamp)) (s₂ : FetchState), s₁.calls = s.calls ++ C ∧
      fetch q clock₂ start stop opts s₁ = .ok r s₂ ∧ s₂.calls = s₁.calls ++ C ∧
      s₂.cache.files.entries.map Prod.fst = s₁.cache.files.entries.map Prod.fst ∧
      s₂.cache.partitions = s₁.cache.partitions ∧
      ∀ name g, (∃ hd, s₂.cache.read name = .ok (hd, g)) ↔ ∃ hd, s₁.cache.read name = .ok (hd, g) := by
  cases hspan : opts.step with
  | none =>
    have hfetch : ∀ clock, fetch q clock start stop opts = fetchOnce q clock start stop opts.dedup :=
      fun clock => by rw [fetch.eq_def, hspan]
    rw [hfetch] at h ⊢
    obtain ⟨ws, rfl, hws, hrun⟩ := fetchOnce_replay hq hclock h
    obtain ⟨ws₂, hrel, hrun₂⟩ := hrun clock₂ (s.after #[(start, stop)] ws) hclock₂ (noFolderAt_after s _ ws)
    exact ⟨#[(start, stop)], _, rfl, hrun₂, rfl, same_after_after hws hrel s _ _⟩
  | some span =>
    rw [fetch_of_some hspan] at h ⊢
    cases hstep : (TimeDelta.ofSpan? span).filter (0 < ·.nanos) with
    | none =>
      rw [hstep] at h
      cases h
    | some step =>
      rw [hstep, fetchSteps_eq] at h
      rw [fetchSteps_eq]
      cases hwalk : walk q clock stop step (start.stepBound stop step) start start s with
      | error e s' => rw [hwalk] at h; cases h
      | ok u s' =>
        rw [hwalk] at h
        dsimp only at h
        cases hget : s'.cache.get (some start) (some stop) opts.dedup with
        | error e => rw [hget] at h; cases h
        | ok r' =>
          rw [hget] at h
          cases h
          obtain ⟨C, ws, rfl, hws, hrun⟩ := walk_replay hq hclock _ _ _ _ _ hwalk
          obtain ⟨ws₂, hrel, hrun₂⟩ := hrun clock₂ (s.after C ws) hclock₂ (noFolderAt_after s C ws)
          refine ⟨C, _, rfl, ?_, rfl, same_after_after hws hrel s C C⟩
          -- the second run reads back from partitions read as the first run's
          rw [hrun₂]
          dsimp only
          rw [get_of_rel (rel_after_after hws hrel s C C) rfl hget]

/-- One row at the epoch, with no columns. -/
def epochRow : Frame := ⟨"time", #[Timestamp.epoch], []⟩

/-- A source that answers every question with `epochRow`. -/
def epochRowSource : Query := fun _ _ _ => .ok (some epochRow)

/-- A clock stopped at 2023-11-14T22:13:20Z, whose seconds have more digits than the epoch's. -/
def laterClock : Clock := fun _ => ⟨1700000000, 0⟩

/-- The file of `epochRow` fits the format, made at the epoch or at `laterClock`'s time. -/
theorem fileFits_epochRow : FileFits epochRow ⟨0, 0⟩ ∧ FileFits epochRow ⟨1700000000, 0⟩ :=
  ⟨fileFits_of_size rfl rfl (by decide +kernel), fileFits_of_size rfl rfl (by decide +kernel)⟩

/-- The partition of `epochRow`, made at the epoch. -/
def epochRowWrite : Install where
  tmp := ".1970-01-01T00:00:00+00:00_1970-01-01T00:00:00+00:00.chunk.tmp"
  name := "1970-01-01T00:00:00+00:00_1970-01-01T00:00:00+00:00.chunk"
  data := PartitionCodec.assemble
    (PartitionCodec.headerOf epochRow Timestamp.epoch Timestamp.epoch
      (PartitionCodec.sectionsFrom 0 (PartitionCodec.bodyParts epochRow)) ⟨0, 0⟩)
    (PartitionCodec.bodyParts epochRow)

/-- A fresh cache after `epochRow` was fetched for the first two seconds with `stoppedClock`. -/
def epochRowFetched : FetchState :=
  ⟨{ freshState.cache with files := freshState.cache.files.install epochRowWrite },
    #[(Timestamp.epoch, twoSeconds)]⟩

theorem fetch_again_same_epochRow :
    Deterministic epochRowSource ∧ ClockFits epochRowSource stoppedClock ∧
      ClockFits epochRowSource laterClock ∧
      fetch epochRowSource stoppedClock Timestamp.epoch twoSeconds {} freshState =
        .ok (some epochRow) epochRowFetched ∧
      ∃ (C : Array (Timestamp × Timestamp)) (s₂ : FetchState), epochRowFetched.calls = freshState.calls ++ C ∧
        fetch epochRowSource laterClock Timestamp.epoch twoSeconds {} epochRowFetched = .ok (some epochRow) s₂ ∧
        s₂.calls = epochRowFetched.calls ++ C ∧
        s₂.cache.files.entries.map Prod.fst = epochRowFetched.cache.files.entries.map Prod.fst ∧
        s₂.cache.partitions = epochRowFetched.cache.partitions ∧
        ∀ name g, (∃ hd, s₂.cache.read name = .ok (hd, g)) ↔
          ∃ hd, epochRowFetched.cache.read name = .ok (hd, g) := by
  have hq : Deterministic epochRowSource := fun _ _ _ _ => rfl
  -- every answer is `epochRow`, whose file fits at both clocks' one reading
  have hanswer : ∀ n a b f, epochRowSource n a b = .ok (some f) → f = epochRow :=
    fun _ _ _ _ h => (Option.some.inj (Except.ok.inj h)).symm
  have hstopped : ClockFits epochRowSource stoppedClock :=
    ⟨fun _ => (by decide : CreatedAt.Valid ⟨0, 0⟩), fun n a b f _ h => hanswer n a b f h ▸ fileFits_epochRow.1⟩
  have hlater : ClockFits epochRowSource laterClock :=
    ⟨fun _ => (by decide : CreatedAt.Valid ⟨1700000000, 0⟩),
      fun n a b f _ h => hanswer n a b f h ▸ fileFits_epochRow.2⟩
  have hw : Writes epochRow ⟨0, 0⟩ epochRowWrite :=
    { name := ⟨Timestamp.epoch, Timestamp.epoch, rfl, rfl, by decide⟩
      tmp := rfl
      data := PartitionCodec.encode_eq _ rfl rfl (by decide)
      legal_tmp := checkName_eq_ok_iff.2 ⟨by rw [String.contains_char_eq]; decide, by decide⟩
      legal_name := checkName_eq_ok_iff.2 ⟨by rw [String.contains_char_eq]; decide, by decide⟩ }
  obtain ⟨p, hstore⟩ := (store_eq_ok_iff (c := freshState.cache)).2
    ⟨epochRowWrite, hw, by simp [NoFolderAt, freshState, Directory.empty], rfl⟩
  have hfirst : fetch epochRowSource stoppedClock Timestamp.epoch twoSeconds {} freshState =
      .ok (some epochRow) epochRowFetched := by
    rw [fetch.eq_def]
    dsimp only
    rw [fetchOnce_eq]
    dsimp only [epochRowSource]
    rw [if_neg (by decide), show stoppedClock (freshState.calls.size + 1) = ⟨0, 0⟩ from rfl, hstore]
    rfl
  exact ⟨hq, hstopped, hlater, hfirst, fetch_again_same hq hstopped hlater hfirst⟩

end Fetch

end FrameCache
