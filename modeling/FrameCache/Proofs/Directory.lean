import Mathlib
import FrameCache.Store.Directory

/-!
# Laws of directories

A directory is the list of its entries. Looking a name up after a write or a removal sees
the change at that name and nothing else (`lookup?_put`, `lookup?_erase`); writing a name
twice keeps the last write (`put_put`), and a write that is removed again leaves no trace of
the name (`erase_put_self`).

A directory that a file system can hold has distinct names, each a legal name: no NUL
character and at most `maxNameBytes` bytes (`Directory.Valid`). In such a directory every
entry is found by its name (`lookup?_of_mem`). Each operation of the file system succeeds
exactly when the names are legal and the entries it needs are there and of the right kind
(`find_eq_ok_iff`, `writeFile_eq_ok_iff`, `rename_eq_ok_iff`, `removeFile_eq_ok_iff`).
-/

namespace FrameCache

namespace Directory

variable {d d' : Directory} {name n : String} {e e' : Entry}

theorem lookup?_mk_cons (m : String × Entry) (l : List (String × Entry)) (n : String) :
    lookup? ⟨m :: l⟩ n = if m.1 = n then some m.2 else lookup? ⟨l⟩ n := by
  unfold lookup?
  by_cases h : m.1 = n <;> simp [h]

@[simp] theorem lookup?_mk_nil (n : String) : lookup? ⟨[]⟩ n = none := rfl

theorem lookup?_eq_none_iff : d.lookup? name = none ↔ ∀ m ∈ d.entries, m.1 ≠ name := by
  simp [lookup?]

theorem mem_of_lookup?_eq_some (h : d.lookup? name = some e) : (name, e) ∈ d.entries := by
  unfold lookup? at h
  rw [Option.map_eq_some_iff] at h
  obtain ⟨m, hm, rfl⟩ := h
  have hname : m.1 = name := by simpa using List.find?_some hm
  rw [← hname]
  exact List.mem_of_find?_eq_some hm

/-- Where names are distinct, an entry is found under its name. -/
theorem lookup?_of_mem (hnd : (d.entries.map (·.1)).Nodup) (hm : (name, e) ∈ d.entries) :
    d.lookup? name = some e := by
  cases hl : d.lookup? name with
  | none => exact absurd rfl (lookup?_eq_none_iff.1 hl _ hm)
  | some e'' =>
    have hm' := mem_of_lookup?_eq_some hl
    have := List.inj_on_of_nodup_map hnd hm hm' rfl
    simp_all

/-- Whether some entry is called `name`, as `put` asks it. -/
theorem any_eq_false_iff : d.entries.any (·.1 == name) = false ↔ ∀ m ∈ d.entries, m.1 ≠ name := by
  simp

theorem lookup?_map_put (l : List (String × Entry)) :
    lookup? ⟨l.map fun m => if m.1 == name then (name, e) else m⟩ n =
      if n = name then (if l.any (·.1 == name) then some e else none) else lookup? ⟨l⟩ n := by
  induction l with
  | nil => simp
  | cons m l ih =>
    rw [List.map_cons, lookup?_mk_cons, lookup?_mk_cons, ih]
    by_cases h1 : m.1 = name
    · by_cases h2 : n = name
      · subst h2
        simp [h1]
      · simp [h1, h2, Ne.symm h2]
    · by_cases h2 : n = name
      · subst h2
        have hb : (m.1 == n) = false := beq_eq_false_iff_ne.mpr h1
        simp only [List.any_cons, hb, Bool.false_or, h1, if_false, if_true, Bool.false_eq_true]
      · simp [h1, h2]

theorem lookup?_append_single (l : List (String × Entry)) (h : ∀ m ∈ l, m.1 ≠ name) :
    lookup? ⟨l ++ [(name, e)]⟩ n = if n = name then some e else lookup? ⟨l⟩ n := by
  induction l with
  | nil => by_cases h2 : n = name <;> simp [lookup?_mk_cons, h2, Ne.symm]
  | cons m l ih =>
    rw [List.cons_append, lookup?_mk_cons, lookup?_mk_cons,
      ih (fun m' hm' => h m' (List.mem_cons_of_mem _ hm'))]
    have h1 := h m List.mem_cons_self
    by_cases h2 : n = name
    · subst h2
      simp [h1]
    · by_cases h3 : m.1 = n <;> simp [h2, h3]

/-- A write is seen at its name and nowhere else. -/
@[simp] theorem lookup?_put : (d.put name e).lookup? n = if n = name then some e else d.lookup? n := by
  unfold put
  split
  · next hany =>
    rw [lookup?_map_put, hany]
    rfl
  · next hany =>
    rw [lookup?_append_single _ (any_eq_false_iff.1 (Bool.eq_false_iff.2 hany))]

theorem lookup?_filter_ne (l : List (String × Entry)) :
    lookup? ⟨l.filter (·.1 != name)⟩ n = if n = name then none else lookup? ⟨l⟩ n := by
  induction l with
  | nil => simp
  | cons m l ih =>
    rw [List.filter_cons, lookup?_mk_cons]
    by_cases h1 : m.1 = name
    · have hb : (m.1 != name) = false := by simp [h1]
      rw [hb, if_neg Bool.false_ne_true, ih]
      by_cases h2 : n = name
      · simp [h2]
      · simp [h2, h1, Ne.symm h2]
    · have hb : (m.1 != name) = true := by simp [h1]
      rw [hb, if_pos rfl, lookup?_mk_cons, ih]
      by_cases h2 : n = name
      · subst h2
        simp [h1]
      · simp [h2]

/-- A removal is seen at its name and nowhere else. -/
@[simp] theorem lookup?_erase : (d.erase name).lookup? n = if n = name then none else d.lookup? n :=
  lookup?_filter_ne d.entries


/-- Writing a name twice keeps the last write, in the place of the first. -/
theorem put_put : (d.put name e).put name e' = d.put name e' := by
  obtain ⟨l⟩ := d
  by_cases hany : l.any (·.1 == name) = true
  · have hany' : (l.map fun m => if m.1 == name then (name, e) else m).any (·.1 == name) = true := by
      obtain ⟨m, hm, hmn⟩ := List.any_eq_true.1 hany
      exact List.any_eq_true.2 ⟨(name, e), List.mem_map.2 ⟨m, hm, by rw [if_pos hmn]⟩, by simp⟩
    simp only [put, hany, hany', if_true, List.map_map, Directory.mk.injEq]
    apply List.map_congr_left
    intro m _
    by_cases hmn : m.1 = name <;> simp [hmn]
  · have hany' : (l ++ [(name, e)]).any (·.1 == name) = true := by simp
    have hkeep : (l.map fun m => if m.1 == name then (name, e') else m) = l := by
      conv_rhs => rw [← List.map_id l]
      apply List.map_congr_left
      intro m hm
      have : (m.1 == name) = false := by
        simpa using fun h => hany (List.any_eq_true.2 ⟨m, hm, by simp [h]⟩)
      simp [this]
    simp only [put, hany, hany', if_true, if_false, Bool.false_eq_true, List.map_append, hkeep,
      List.map_cons, List.map_nil, beq_self_eq_true]

/-- A write that is removed again leaves what removing the name leaves. -/
theorem erase_put_self : (d.put name e).erase name = d.erase name := by
  obtain ⟨l⟩ := d
  unfold put erase
  split
  · simp only [Directory.mk.injEq]
    clear ‹_›
    induction l with
    | nil => rfl
    | cons m l ih =>
      rw [List.map_cons, List.filter_cons, List.filter_cons, ih]
      by_cases hmn : m.1 = name <;> simp [hmn]
  · simp


/-- Removing a name that no entry has changes nothing. -/
theorem erase_of_lookup?_eq_none (h : d.lookup? name = none) : d.erase name = d := by
  obtain ⟨l⟩ := d
  simp only [erase, Directory.mk.injEq]
  apply List.filter_eq_self.2
  intro m hm
  simpa using lookup?_eq_none_iff.1 h m hm

/-- The directory without the entries of the given names. -/
def without (d : Directory) (names : List String) : Directory :=
  ⟨d.entries.filter fun m => m.1 ∉ names⟩

@[simp] theorem without_nil : d.without [] = d := by
  simp [without]

theorem without_cons (ns : List String) : d.without (n :: ns) = (d.erase n).without ns := by
  simp only [without, erase, List.filter_filter, Directory.mk.injEq]
  apply List.filter_congr
  intro m _
  by_cases h : m.1 = n <;> simp [h]

/-- A name is legal when the file system accepts it: it holds no NUL character and has at
most `maxNameBytes` bytes. -/
theorem checkName_eq_ok_iff :
    checkName name = .ok () ↔ name.contains (Char.ofNat 0) = false ∧ name.utf8ByteSize ≤ maxNameBytes := by
  unfold checkName checkNul
  by_cases h0 : name.contains (Char.ofNat 0) = true
  · simp [h0, bind, Except.bind]
  · by_cases hs : maxNameBytes < name.utf8ByteSize
    · simp [h0, hs, bind, Except.bind, throw, throwThe, MonadExceptOf.throw]
    · simp [h0, hs, bind, Except.bind, pure, Except.pure]
      omega

theorem checkNul_of_checkName (h : checkName name = .ok ()) : checkNul name = .ok () := by
  unfold checkName at h
  cases hn : checkNul name with
  | error err => rw [hn] at h; cases h
  | ok u => rfl

/-- A directory that a file system can hold: its names are distinct and legal. -/
structure Valid (d : Directory) : Prop where
  nodup : (d.entries.map (·.1)).Nodup
  legal : ∀ m ∈ d.entries, checkName m.1 = .ok ()

theorem Valid.erase (h : d.Valid) : (d.erase name).Valid where
  nodup := h.nodup.sublist (List.filter_sublist.map _)
  legal m hm := h.legal m (List.mem_filter.1 hm).1

theorem Valid.without (h : d.Valid) (ns : List String) : (d.without ns).Valid where
  nodup := h.nodup.sublist (List.filter_sublist.map _)
  legal m hm := h.legal m (List.mem_filter.1 hm).1

/-- Opening a name finds the entry of that name, if the name is legal. -/
theorem find_eq_ok_iff : d.find name = .ok e ↔ checkName name = .ok () ∧ d.lookup? name = some e := by
  unfold find
  cases hc : checkName name with
  | error err => simp [bind, Except.bind]
  | ok u =>
    cases hl : d.lookup? name with
    | none => simp [bind, Except.bind]
    | some e'' => simp [bind, Except.bind]

/-- Removing succeeds on a file of a legal name, and removes just that name. -/
theorem removeFile_eq_ok_iff :
    d.removeFile name = .ok d' ↔
      checkName name = .ok () ∧ (∃ data, d.lookup? name = some (.file data)) ∧ d' = d.erase name := by
  unfold removeFile
  cases hf : d.find name with
  | error err =>
    simp only [bind, Except.bind, reduceCtorEq, false_iff, not_and]
    rintro hc ⟨data, hl⟩ -
    rw [find_eq_ok_iff.2 ⟨hc, hl⟩] at hf
    cases hf
  | ok e =>
    obtain ⟨hc, hl⟩ := find_eq_ok_iff.1 hf
    cases e with
    | file data => simp [bind, Except.bind, hc, hl, eq_comm]
    | folder => simp [bind, Except.bind, hl]

/-- Writing a file succeeds under a legal name that is not a subdirectory. -/
theorem writeFile_eq_ok_iff {data : ByteArray} :
    d.writeFile name data = .ok d' ↔
      checkName name = .ok () ∧ d.lookup? name ≠ some .folder ∧ d' = d.put name (.file data) := by
  unfold writeFile
  cases hc : checkName name with
  | error err => simp [bind, Except.bind]
  | ok u =>
    cases hl : d.lookup? name with
    | none => simp [bind, Except.bind, eq_comm]
    | some e'' => cases e'' <;> simp [bind, Except.bind, eq_comm]

/-- Moving a file succeeds when both names are legal, the source exists and the target is
not a subdirectory; the target then holds the source's entry. -/
theorem rename_eq_ok_iff {src tgt : String} :
    d.rename src tgt = .ok d' ↔
      checkName src = .ok () ∧ checkName tgt = .ok () ∧
        ∃ e, d.lookup? src = some e ∧ d.lookup? tgt ≠ some .folder ∧ d' = (d.erase src).put tgt e := by
  unfold rename
  cases hns : checkNul src with
  | error err =>
    have hcs : checkName src ≠ .ok () := fun h => by rw [checkNul_of_checkName h] at hns; cases hns
    simp [bind, Except.bind, hcs]
  | ok u =>
    cases hnt : checkNul tgt with
    | error err =>
      have hct : checkName tgt ≠ .ok () := fun h => by rw [checkNul_of_checkName h] at hnt; cases hnt
      simp [bind, Except.bind, hct]
    | ok u' =>
      cases hf : d.find src with
      | error err =>
        simp only [bind, Except.bind, reduceCtorEq, false_iff, not_and]
        rintro hcs - ⟨e, hl, -⟩
        rw [find_eq_ok_iff.2 ⟨hcs, hl⟩] at hf
        cases hf
      | ok e =>
        obtain ⟨hcs, hl⟩ := find_eq_ok_iff.1 hf
        cases hct : checkName tgt with
        | error err => simp [bind, Except.bind]
        | ok u'' =>
          cases hlt : d.lookup? tgt with
          | none => simp [bind, Except.bind, hcs, hl, eq_comm]
          | some e'' => cases e'' <;> simp [bind, Except.bind, hcs, hl, eq_comm]

end Directory

end FrameCache
