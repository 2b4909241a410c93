import Mathlib
import FrameCache.Proofs.JsonRead

/-!
# Reading typed JSON back

`Reads r j a` says that the reader `r` turns the compact text of the value `j` into `a`,
whatever follows the text as long as it may follow a value. Numbers, strings and variants
read their own texts; a list whose items are read by `item` is read by `readList item`; an
object whose members are the fields of a record, in order, is read by `readRecord`, each
member by the reader of its field (`ReadsFields`); and a reader of a value reads the whole
input that is the value's text (`readWhole_reads`).

`Fails r j` is the other side: `r` fails on the text of `j`. A failure goes through every
combinator a reader is built of (`Errs.bind`, `Errs.typed`, `Errs.enclosed`), so a record fails
on an object whose member its field's reader fails on, once the members before it are read
(`readRecord_fails`), and so does a whole input (`readWhole_fails`).
-/

namespace FrameCache.JsonReader

open Json

variable {α β : Type} {c c' : Cursor} {b : UInt8} {r : List UInt8}

/-! ## Scalars -/

theorem map_of_ok {x : JsonReader α} {f : α → β} {a : α} (h : x c = .ok a c') :
    (f <$> x) c = .ok (f a) c' := by
  show EStateM.map f x c = _
  simp only [EStateM.map, h]

/-- `r` reads the compact text of `j` as `a`: from a cursor whose rest is that text and then
something that may follow a value, it gives `a` and stops just after the text. -/
def Reads (r : JsonReader α) (j : Json) (a : α) : Prop :=
  ∀ ⦃c : Cursor⦄ ⦃rest : List UInt8⦄, c.rest = textBytes j.compact ++ rest → Delimited rest →
    r c = .ok a (c.skip (textBytes j.compact).length)

theorem Reads.map {r : JsonReader α} {j : Json} {a : α} (h : Reads r j a) (f : α → β) :
    Reads (f <$> r) j (f a) := fun _ _ hc hd => map_of_ok (h hc hd)

theorem Reads.bind_ok {r : JsonReader α} {f : α → JsonReader β} {j : Json} {a : α} {b : β}
    (h : Reads r j a) (hf : ∀ c, f a c = .ok b c) : Reads (r >>= f) j b :=
  fun _ _ hc hd => by rw [bind_of_ok (h hc hd), hf]

/-! ## Failing -/

/-- The reader `x` fails from the cursor `c`, with some error, wherever it stops. -/
def Errs (x : JsonReader α) (c : Cursor) : Prop := ∃ e c', x c = .error e c'

/-- `r` fails on the compact text of `j`, whatever follows the text as long as it may follow a
value. -/
def Fails (r : JsonReader α) (j : Json) : Prop :=
  ∀ ⦃c : Cursor⦄ ⦃rest : List UInt8⦄, c.rest = textBytes j.compact ++ rest → Delimited rest → Errs r c

theorem Errs.bind {x : JsonReader α} {f : α → JsonReader β} (h : Errs x c) : Errs (x >>= f) c := by
  obtain ⟨e, c', h⟩ := h
  exact ⟨e, c', by show EStateM.bind x f c = _; simp only [EStateM.bind, h]⟩

theorem Errs.bind_of_ok {x : JsonReader α} {f : α → JsonReader β} {a : α} (hx : x c = .ok a c')
    (h : Errs (f a) c') : Errs (x >>= f) c := by
  obtain ⟨e, c'', h⟩ := h
  exact ⟨e, c'', by rw [JsonReader.bind_of_ok hx, h]⟩

/-- Whatever a step gives, throwing after it fails. -/
theorem errs_bind_throw {γ : Type} (x : JsonReader γ) (g : γ → JsonError) :
    Errs (x >>= fun a => throw (g a) : JsonReader α) c := by
  show ∃ e c', EStateM.bind x _ c = _
  simp only [EStateM.bind]
  cases x c with
  | ok a c' => exact ⟨g a, c', rfl⟩
  | error e c' => exact ⟨e, c', rfl⟩

/-- A failure caught by a handler that fails again fails. -/
theorem Errs.tryCatch {x : JsonReader α} {handle : JsonError → JsonReader α} (h : Errs x c)
    (hh : ∀ e c', Errs (handle e) c') : Errs (tryCatch x handle) c := by
  obtain ⟨e, c', hx⟩ := h
  show ∃ e c', EStateM.tryCatch x handle c = _
  simp only [EStateM.tryCatch, hx]
  exact hh e _

/-- A typed read fails when its reader does: the failure only gets a position. -/
theorem Errs.typed {x : JsonReader α} (h : Errs x c) : Errs (typed x) c :=
  h.tryCatch fun e _ => errs_bind_throw (fixPosition e) id

/-- An array or object whose body fails fails, whether or not its end is found. -/
theorem Errs.enclosed {body : JsonReader α} {finish : JsonReader Unit} (h : Errs body c) :
    Errs (enclosed body finish) c :=
  (h.bind (f := fun a => do finish; return a)).tryCatch fun e _ =>
    errs_bind_throw (MonadExcept.tryCatch finish fun _ => pure ()) fun _ => e

theorem Errs.map {x : JsonReader α} {f : α → β} (h : Errs x c) : Errs (f <$> x) c := by
  obtain ⟨e, c', h⟩ := h
  exact ⟨e, c', by show EStateM.map f x c = _; simp only [EStateM.map, h]⟩

theorem Fails.map {r : JsonReader α} {j : Json} (h : Fails r j) (f : α → β) : Fails (f <$> r) j :=
  fun _ _ hc hd => (h hc hd).map

theorem textBytes_compact_nat (n : Nat) :
    textBytes (compact (.num (.int n))) = (Nat.toDigits 10 n).map fun d => d.toNat.toUInt8 := by
  rw [compact_num]
  exact textBytes_natText n

/-- A byte from `!` on is no blank. -/
theorem notBlank_of_le {b : UInt8} (h : 33 ≤ b.toNat) :
    (b == 32 || b == 10 || b == 9 || b == 13) = false := by
  simp only [Bool.or_eq_false_iff, beq_eq_false_iff_ne, ne_eq, ← UInt8.toNat_inj, UInt8.reduceToNat]
  omega

theorem toNat_digitByte_bounds {d : Char} (hd : d.isDigit = true) :
    48 ≤ d.toNat.toUInt8.toNat ∧ d.toNat.toUInt8.toNat ≤ 57 := by
  have h := Char.isDigit_iff_toNat.mp hd
  simp only [Char.reduceToNat] at h
  rw [toNat_digitByte hd]
  exact h

theorem readNat_reads {name : String} {max n : Nat} (hn : n ≤ max) (hmax : max ≤ u64Max) :
    Reads (readNat name max) (.num (.int n)) n := by
  intro c rest h hd
  rw [textBytes_compact_nat] at h ⊢
  obtain ⟨d, ds, hds⟩ := List.exists_cons_of_ne_nil (Nat.toDigits_ne_nil (n := n) (b := 10))
  have hd1 : d.isDigit = true := Nat.isDigit_of_mem_toDigits (b := 10) (n := n) (by decide) (by decide)
    (by rw [hds]; exact List.mem_cons_self ..)
  have hbounds := toNat_digitByte_bounds hd1
  have h' : c.rest = d.toNat.toUInt8 :: (ds.map (fun d => d.toNat.toUInt8) ++ rest) := by
    rw [h, hds]
    rfl
  -- a digit is not the minus sign, so the reader takes the unsigned branch
  have h45 : d.toNat.toUInt8 ≠ 45 := fun e => by rw [e] at hbounds; simp at hbounds
  apply typed_of_ok
  rw [bind_of_ok (skipBlanks_of_cons h' (notBlank_of_le (by omega)))]
  simp only [isDigit_digitByte hd1, if_true]
  rw [bind_of_ok (unsignedNumber_toDigits (Nat.le_trans hn hmax) h hd)]
  simp only [Int.natCast_nonneg, Int.not_lt.mpr, Int.toNat_natCast, if_false, Nat.not_lt.mpr hn,
    List.length_map]
  rfl

theorem rest_quoted {s : String} {rest : List UInt8}
    (h : c.rest = textBytes (compact (.str s)) ++ rest) :
    c.rest = 34 :: (s.toList.flatMap escapeBytes ++ 34 :: rest) := by
  rw [h, compact_str, textBytes_quote]
  simp

theorem length_textBytes_compact_str (s : String) :
    (textBytes (compact (.str s))).length = (s.toList.flatMap escapeBytes).length + 2 := by
  rw [compact_str, textBytes_quote]
  simp

theorem readStringWith_reads {name : String} {convert : String → Except JsonError α} {s : String}
    {a : α} (hconv : convert s = .ok a) : Reads (readStringWith name convert) (.str s) a := by
  intro c rest h hd
  have h' := rest_quoted h
  apply typed_of_ok
  rw [bind_of_ok (skipBlanks_of_cons h' (by decide))]
  show (eat >>= _) c = _
  rw [bind_of_ok eat_apply, bind_of_ok (stringBody_quoted s (Cursor.rest_skip_one h')), hconv,
    length_textBytes_compact_str]
  simp only [Cursor.skip_skip, pure_apply]
  exact congrArg (fun n => EStateM.Result.ok _ (Cursor.skip _ n)) (by omega)

theorem readStringWith_fails {name : String} {convert : String → Except JsonError α} {s : String}
    {e : JsonError} (hconv : convert s = .error e) : Fails (readStringWith name convert) (.str s) := by
  intro c rest h hd
  have h' := rest_quoted h
  apply Errs.typed
  refine Errs.bind_of_ok (skipBlanks_of_cons h' (by decide)) ?_
  show Errs (eat >>= _) c
  refine Errs.bind_of_ok eat_apply (Errs.bind_of_ok (stringBody_quoted s (Cursor.rest_skip_one h')) ?_)
  rw [hconv]
  exact ⟨e, _, rfl⟩

theorem readString_reads (s : String) : Reads readString (.str s) s :=
  readStringWith_reads rfl

theorem readVariant_reads {enumName : String} {variants : List String} {s : String} {i : Nat}
    (h : variants.idxOf? s = some i) : Reads (readVariant enumName variants) (.str s) i := by
  intro c rest hc hd
  have h' := rest_quoted hc
  rw [readVariant, bind_of_ok (skipBlanks_of_cons h' (by decide))]
  exact readStringWith_reads (by simp only [h]) hc hd

/-! ## Lists -/

/-- The compact text of `j` starts with a byte that is no blank, no comma and no closing
bracket, as the text of every value does. -/
def Opens (j : Json) : Prop :=
  ∃ b r, textBytes j.compact = b :: r ∧ 33 ≤ b.toNat ∧ b ≠ 44 ∧ b ≠ 93

/-- The text of an object starts with its brace. -/
theorem opens_obj (ms : List (String × Json)) : Opens (.obj ms) :=
  ⟨123, _, by rw [textBytes_compact_obj]; rfl, by decide, by decide, by decide⟩

theorem nextItem_close {first : Bool} (h : c.rest = 93 :: r) : nextItem first c = .ok false c := by
  rw [nextItem, bind_of_ok (skipBlanks_of_cons h (by decide))]
  rfl

theorem nextItem_first (h : c.rest = b :: r) (hb : 33 ≤ b.toNat) (h44 : b ≠ 44) (h93 : b ≠ 93) :
    nextItem true c = .ok true c := by
  rw [nextItem, bind_of_ok (skipBlanks_of_cons h (notBlank_of_le hb))]
  -- `h44` and `h93` in the context send both matches to the arm of any other byte
  simp only [if_true, pure_bind]
  rfl

theorem nextItem_comma (h : c.rest = 44 :: b :: r) (hb : 33 ≤ b.toNat) (h93 : b ≠ 93) :
    nextItem false c = .ok true (c.skip 1) := by
  rw [nextItem, bind_of_ok (skipBlanks_of_cons h (by decide))]
  simp only [Bool.false_eq_true, if_false]
  rw [bind_of_ok (bind_of_ok eat_apply
    (f := fun _ => skipBlanks) |>.trans (skipBlanks_of_cons (Cursor.rest_skip_one h) (notBlank_of_le hb)))]
  -- `h93` in the context: the byte after the comma is an item, not the end
  simp only []
  rfl

theorem endArray_of_close (h : c.rest = 93 :: r) : endArray c = .ok () (c.skip 1) := by
  rw [endArray, bind_of_ok (skipBlanks_of_cons h (by decide))]
  rfl

theorem intercalate_cons_eq_flatMap (sep x : List UInt8) :
    ∀ xs : List (List UInt8), sep.intercalate (x :: xs) = x ++ xs.flatMap (sep ++ ·)
  | [] => by simp
  | y :: ys => by
    rw [List.intercalate_cons_cons, intercalate_cons_eq_flatMap sep y ys]
    simp

section Items

variable {item : JsonReader α} {enc : α → Json}

/-- The items after the first, each after its comma, are read up to the closing bracket. -/
theorem readList_go_rest {rest : List UInt8} :
    ∀ (as : List α) (acc : Array α) (fuel : Nat) (c : Cursor),
      (∀ a ∈ as, Reads item (enc a) a) → (∀ a ∈ as, Opens (enc a)) →
      c.rest = as.flatMap (fun a => 44 :: textBytes (enc a).compact) ++ 93 :: rest →
      (as.flatMap (fun a => 44 :: textBytes (enc a).compact)).length < fuel →
      readList.go item false acc fuel c =
        .ok (acc.toList ++ as) (c.skip (as.flatMap (fun a => 44 :: textBytes (enc a).compact)).length)
  | [], acc, fuel + 1, c, _, _, h, _ => by
    rw [readList.go, bind_of_ok (nextItem_close h)]
    simp
  | a :: as, acc, fuel + 1, c, hreads, hopen, h, hlen => by
    obtain ⟨b, r, hab, hb, h44, h93⟩ := hopen a (List.mem_cons_self ..)
    have h1 : c.rest = 44 :: b :: (r ++ (as.flatMap (fun a => 44 :: textBytes (enc a).compact) ++ 93 :: rest)) := by
      rw [h, List.flatMap_cons, hab]
      simp
    have h2 : (c.skip 1).rest = textBytes (enc a).compact ++
        (as.flatMap (fun a => 44 :: textBytes (enc a).compact) ++ 93 :: rest) := by
      rw [Cursor.rest_skip_one h1, hab]
      simp
    have hdelim : Delimited (as.flatMap (fun a => 44 :: textBytes (enc a).compact) ++ 93 :: rest) := by
      cases as <;> simp [Delimited]
    rw [readList.go, bind_of_ok (nextItem_comma h1 hb h93), if_pos rfl,
      bind_of_ok (hreads a (List.mem_cons_self ..) h2 hdelim),
      readList_go_rest as _ fuel _ (fun a h => hreads a (List.mem_cons_of_mem _ h))
        (fun a h => hopen a (List.mem_cons_of_mem _ h)) (Cursor.rest_skip h2)
        (by simp only [List.flatMap_cons, List.length_append, List.length_cons] at hlen; omega)]
    simp only [Array.toList_push, List.append_assoc, List.singleton_append, Cursor.skip_skip,
      List.flatMap_cons, List.length_append, List.length_cons]
    exact congrArg (fun n => EStateM.Result.ok _ (Cursor.skip _ n)) (by omega)

/-- All items of a list are read up to its closing bracket. -/
theorem readList_go_all {rest : List UInt8} (as : List α) (fuel : Nat) (c : Cursor)
    (hreads : ∀ a ∈ as, Reads item (enc a) a) (hopen : ∀ a ∈ as, Opens (enc a))
    (h : c.rest = [44].intercalate (as.map fun a => textBytes (enc a).compact) ++ 93 :: rest)
    (hlen : ([44].intercalate (as.map fun a => textBytes (enc a).compact)).length < fuel) :
    readList.go item true #[] fuel c =
      .ok as (c.skip ([44].intercalate (as.map fun a => textBytes (enc a).compact)).length) := by
  obtain ⟨fuel, rfl⟩ : ∃ f, fuel = f + 1 := ⟨fuel - 1, by omega⟩
  cases as with
  | nil =>
    rw [readList.go, bind_of_ok (nextItem_close h)]
    rfl
  | cons a as =>
    obtain ⟨b, r, hab, hb, h44, h93⟩ := hopen a (List.mem_cons_self ..)
    have hflat : (as.map fun a => textBytes (enc a).compact).flatMap ([44] ++ ·) =
        as.flatMap (fun a => 44 :: textBytes (enc a).compact) := by
      simp [List.flatMap_map]
    rw [List.map_cons, intercalate_cons_eq_flatMap, hflat] at h hlen ⊢
    have hlen' := hlen
    rw [List.length_append, hab, List.length_cons] at hlen'
    have h1 : c.rest = b :: (r ++ (as.flatMap (fun a => 44 :: textBytes (enc a).compact) ++ 93 :: rest)) := by
      rw [h, hab]
      simp
    have h2 : c.rest = textBytes (enc a).compact ++
        (as.flatMap (fun a => 44 :: textBytes (enc a).compact) ++ 93 :: rest) := by
      rw [h]
      simp
    have hdelim : Delimited (as.flatMap (fun a => 44 :: textBytes (enc a).compact) ++ 93 :: rest) := by
      cases as <;> simp [Delimited]
    rw [readList.go, bind_of_ok (nextItem_first h1 hb h44 h93), if_pos rfl,
      bind_of_ok (hreads a (List.mem_cons_self ..) h2 hdelim),
      readList_go_rest as _ fuel _ (fun a h => hreads a (List.mem_cons_of_mem _ h))
        (fun a h => hopen a (List.mem_cons_of_mem _ h)) (Cursor.rest_skip h2) (by omega)]
    simp only [Array.toList_push, Cursor.skip_skip, List.length_append]
    rfl

/-- A list of values, each read by `item`, is read back in order. -/
theorem readList_reads (as : List α) (hreads : ∀ a ∈ as, Reads item (enc a) a)
    (hopen : ∀ a ∈ as, Opens (enc a)) : Reads (readList item) (.arr (as.map enc)) as := by
  intro c rest h hd
  simp only [textBytes_compact_arr, List.map_map, Function.comp_def] at h ⊢
  have h0 : c.rest = 91 :: ([44].intercalate (as.map fun a => textBytes (enc a).compact) ++ 93 :: rest) := by
    rw [h]
    simp
  have h1 := Cursor.rest_skip_one h0
  have hfuel := Cursor.length_rest (c.skip 1)
  rw [h1, List.length_append, List.length_cons] at hfuel
  apply typed_of_ok
  rw [bind_of_ok (skipBlanks_of_cons h0 (by decide))]
  show (eat >>= fun _ => get >>= fun c =>
    enclosed (readList.go item true #[] (c.bytes.size - c.pos + 1)) endArray) c = _
  rw [bind_of_ok eat_apply, bind_of_ok get_apply,
    enclosed_of_ok (readList_go_all as _ _ hreads hopen h1 (by omega))
      (endArray_of_close (Cursor.rest_skip h1))]
  simp only [Cursor.skip_skip, List.length_append, List.length_cons, List.length_nil]

end Items

/-! ## Records -/

theorem nextKey_close {first : Bool} (h : c.rest = 125 :: r) : nextKey first c = .ok none c := by
  rw [nextKey, bind_of_ok (skipBlanks_of_cons h (by decide))]
  rfl

theorem nextKey_first {k : String} (h : c.rest = textBytes (quote k) ++ r) :
    nextKey true c = .ok (some k) (c.skip (textBytes (quote k)).length) := by
  have h' := rest_quoted (s := k) (by rw [compact_str]; exact h)
  rw [nextKey, bind_of_ok (skipBlanks_of_cons h' (by decide))]
  simp (disch := decide) only [if_true]
  show (eat >>= fun _ => stringBody >>= fun s => pure (some s)) c = _
  rw [bind_of_ok eat_apply, bind_of_ok (stringBody_quoted k (Cursor.rest_skip_one h'))]
  have := length_textBytes_compact_str k
  rw [compact_str] at this
  simp only [pure_apply, Cursor.skip_skip, this]
  exact congrArg (fun n => EStateM.Result.ok _ (Cursor.skip _ n)) (by omega)

theorem nextKey_comma {k : String} (h : c.rest = 44 :: (textBytes (quote k) ++ r)) :
    nextKey false c = .ok (some k) (c.skip ((textBytes (quote k)).length + 1)) := by
  have h1 := Cursor.rest_skip_one h
  have h' := rest_quoted (s := k) (by rw [compact_str]; exact h1)
  rw [nextKey, bind_of_ok (skipBlanks_of_cons h (by decide))]
  simp only [Bool.false_eq_true, if_false]
  rw [bind_of_ok (bind_of_ok eat_apply (f := fun _ => skipBlanks) |>.trans
      (skipBlanks_of_cons h' (by decide)))]
  show (eat >>= fun _ => stringBody >>= fun s => pure (some s)) (c.skip 1) = _
  rw [bind_of_ok eat_apply, bind_of_ok (stringBody_quoted k (Cursor.rest_skip_one h'))]
  have := length_textBytes_compact_str k
  rw [compact_str] at this
  simp only [pure_apply, Cursor.skip_skip, this]
  exact congrArg (fun n => EStateM.Result.ok _ (Cursor.skip _ n)) (by omega)

theorem colon_of_cons (h : c.rest = 58 :: r) : colon c = .ok () (c.skip 1) := by
  rw [colon, bind_of_ok (skipBlanks_of_cons h (by decide))]
  rfl

theorem endObject_of_close (h : c.rest = 125 :: r) : endObject c = .ok () (c.skip 1) := by
  rw [endObject, bind_of_ok (skipBlanks_of_cons h (by decide))]
  rfl

/-- The members of an object written in the order of a record's fields, each read by the
reader of its field. -/
structure ReadsFields (spec : RecordSpec α β) (ms : List (String × Json)) (as : List α) : Prop where
  names : ms.map Prod.fst = spec.fields
  nodup : spec.fields.Nodup
  length : as.length = ms.length
  reads : ∀ i (hm : i < ms.length) (ha : i < as.length), Reads (spec.field i) ms[i].2 as[i]

/-- The fields read so far: the first `k` values, then nothing up to `n` fields. -/
def filledFields (as : List α) (k n : Nat) : Array (Option α) :=
  ((as.take k).map some ++ List.replicate (n - k) none).toArray

/-- Where the members are named by distinct fields in order, the name of member `k` is field
`k`. -/
theorem idxOf?_of_names {spec : RecordSpec α β} {ms : List (String × Json)}
    (hnames : ms.map Prod.fst = spec.fields) (hnodup : spec.fields.Nodup) {k : Nat} (hk : k < ms.length) :
    spec.fields.idxOf? ms[k].1 = some k := by
  have hlen : k < spec.fields.length := by rw [← hnames, List.length_map]; exact hk
  have hget : spec.fields[k] = ms[k].1 := by simp [← hnames]
  rw [List.idxOf?_eq_some_iff]
  refine ⟨hlen, hget, fun j hj e => ?_⟩
  have := List.pairwise_iff_getElem.mp hnodup j k (by omega) hlen hj
  exact this (e.trans hget.symm)

theorem getD_filledFields {as : List α} {k n : Nat} (hk : k ≤ as.length) :
    (filledFields as k n).getD k none = none := by
  rw [filledFields, Array.getD_eq_getD_getElem?, List.getElem?_toArray,
    List.getElem?_append_right (by simp only [List.length_map, List.length_take]; omega)]
  simp only [List.length_map, List.length_take, Nat.min_eq_left hk, Nat.sub_self,
    List.getElem?_replicate]
  split <;> rfl

theorem set!_filledFields {as : List α} {k n : Nat} (hk : k < as.length) (hn : k < n) :
    (filledFields as k n).set! k (some as[k]) = filledFields as (k + 1) n := by
  obtain ⟨d, hd⟩ : ∃ d, n - k = d + 1 := ⟨n - k - 1, by omega⟩
  rw [filledFields, filledFields, Array.set!_eq_setIfInBounds, List.setIfInBounds_toArray,
    List.set_append_right _ _ (by simp only [List.length_map, List.length_take]; omega), hd, show n - (k + 1) = d by omega,
    List.take_add_one, List.getElem?_eq_getElem hk, Option.toList_some, List.map_append,
    List.length_map, List.length_take, Nat.min_eq_left (Nat.le_of_lt hk), Nat.sub_self,
    List.replicate_succ, List.set_cons_zero]
  simp

/-- A member after its comma: where its key ends its colon stands, and where its value ends
what follows it. -/
theorem rest_commaMember {m : String × Json} {tail : List UInt8} (h : c.rest = 44 :: (memberBytes m ++ tail)) :
    c.rest = 44 :: (textBytes (quote m.1) ++ (58 :: (textBytes (compact m.2) ++ tail))) ∧
      (c.skip ((textBytes (quote m.1)).length + 1)).rest = 58 :: (textBytes (compact m.2) ++ tail) ∧
      ((c.skip ((textBytes (quote m.1)).length + 1)).skip ((textBytes (compact m.2)).length + 1)).rest =
        tail := by
  have hkey : c.rest = 44 :: (textBytes (quote m.1) ++ (58 :: (textBytes (compact m.2) ++ tail))) := by
    rw [h]
    simp [memberBytes]
  have h₁ : (c.skip ((textBytes (quote m.1)).length + 1)).rest = 58 :: (textBytes (compact m.2) ++ tail) :=
    Cursor.rest_skip_eq (t := 44 :: textBytes (quote m.1)) (by rw [hkey]; simp) (by simp [Nat.add_comm])
  exact ⟨hkey, h₁, Cursor.rest_skip_eq (t := 58 :: textBytes (compact m.2)) (by rw [h₁]; simp)
    (by simp [Nat.add_comm])⟩

/-- The first member, with no comma before it. -/
theorem rest_firstMember {m : String × Json} {tail : List UInt8} (h : c.rest = memberBytes m ++ tail) :
    c.rest = textBytes (quote m.1) ++ (58 :: (textBytes (compact m.2) ++ tail)) ∧
      (c.skip (textBytes (quote m.1)).length).rest = 58 :: (textBytes (compact m.2) ++ tail) ∧
      ((c.skip (textBytes (quote m.1)).length).skip ((textBytes (compact m.2)).length + 1)).rest = tail := by
  have hkey : c.rest = textBytes (quote m.1) ++ (58 :: (textBytes (compact m.2) ++ tail)) := by
    rw [h]
    simp [memberBytes]
  have h₁ := Cursor.rest_skip hkey
  exact ⟨hkey, h₁, Cursor.rest_skip_eq (t := 58 :: textBytes (compact m.2)) (by rw [h₁]; simp)
    (by simp [Nat.add_comm])⟩

/-- What follows a member's value in an object may follow a value: a comma or the brace. -/
theorem delimited_members (post : List (String × Json)) (rest : List UInt8) :
    Delimited (post.flatMap (fun m => 44 :: memberBytes m) ++ 125 :: rest) := by
  cases post <;> simp [Delimited]

section Members

variable {spec : RecordSpec α β} {first : Bool} {vals : Array (Option α)} {k fuel : Nat} {c₁ : Cursor}
  {key : String}

/-- A member whose key names field `k`, not read yet: after the colon the reader of field `k`
reads its value, and the members go on with it filled in. -/
theorem members_key (hidx : spec.fields.idxOf? key = some k) (hfree : vals.getD k none = none)
    (hkey : nextKey first c = .ok (some key) c₁) (h₁ : c₁.rest = 58 :: r) :
    readRecord.members spec first vals (fuel + 1) c =
      (spec.field k >>= fun v => readRecord.members spec false (vals.set! k (some v)) fuel) (c₁.skip 1) := by
  rw [readRecord.members, bind_of_ok hkey]
  dsimp only
  rw [hidx]
  dsimp only
  rw [hfree]
  show (colon >>= fun _ => spec.field k >>= fun v =>
    readRecord.members spec false (vals.set! k (some v)) fuel) c₁ = _
  rw [bind_of_ok (colon_of_cons h₁)]

/-- A member whose value field `k` reads. -/
theorem members_read {j : Json} {a : α} {rest : List UInt8} (hidx : spec.fields.idxOf? key = some k)
    (hfree : vals.getD k none = none) (hkey : nextKey first c = .ok (some key) c₁)
    (h₁ : c₁.rest = 58 :: (textBytes (compact j) ++ rest)) (hd : Delimited rest)
    (hread : Reads (spec.field k) j a) :
    readRecord.members spec first vals (fuel + 1) c =
      readRecord.members spec false (vals.set! k (some a)) fuel (c₁.skip ((textBytes (compact j)).length + 1)) := by
  rw [members_key hidx hfree hkey h₁, bind_of_ok (hread (Cursor.rest_skip_one h₁) hd), Cursor.skip_skip,
    Nat.add_comm 1]

/-- Out of fuel, the members fail. -/
theorem members_zero : Errs (readRecord.members spec first vals 0) c := by
  rw [readRecord.members]
  exact errs_bind_throw _ _

/-- A member whose value field `k` fails on makes the members fail. -/
theorem members_fails_here {j : Json} {rest : List UInt8} (hidx : spec.fields.idxOf? key = some k)
    (hfree : vals.getD k none = none) (hkey : nextKey first c = .ok (some key) c₁)
    (h₁ : c₁.rest = 58 :: (textBytes (compact j) ++ rest)) (hd : Delimited rest)
    (hfail : Fails (spec.field k) j) : Errs (readRecord.members spec first vals (fuel + 1)) c := by
  rw [Errs, members_key hidx hfree hkey h₁]
  exact (hfail (Cursor.rest_skip_one h₁) hd).bind

end Members

namespace ReadsFields

variable {spec : RecordSpec α β} {ms : List (String × Json)} {as : List α}

/-- The name of member `k` is field `k`. -/
theorem idxOf?_name (hf : ReadsFields spec ms as) {k : Nat} (hk : k < ms.length) :
    spec.fields.idxOf? ms[k].1 = some k :=
  idxOf?_of_names hf.names hf.nodup hk

/-- One member: its key names the next field, which is read after the colon. -/
theorem members_member (hf : ReadsFields spec ms as) {first : Bool} {k fuel : Nat} {c₁ : Cursor}
    {rest : List UInt8} (hk : k < ms.length) (hkey : nextKey first c = .ok (some ms[k].1) c₁)
    (h₁ : c₁.rest = 58 :: (textBytes (compact ms[k].2) ++ rest)) (hd : Delimited rest) :
    readRecord.members spec first (filledFields as k ms.length) (fuel + 1) c =
      readRecord.members spec false (filledFields as (k + 1) ms.length) fuel
        (c₁.skip ((textBytes (compact ms[k].2)).length + 1)) := by
  have hka : k < as.length := hf.length ▸ hk
  rw [members_read (hf.idxOf?_name hk) (getD_filledFields (Nat.le_of_lt hka)) hkey h₁ hd
    (hf.reads k hk hka), set!_filledFields hka hk]

/-- The members after the first, each after its comma, are read up to the closing brace. -/
theorem members_rest (hf : ReadsFields spec ms as) {rest : List UInt8} :
    ∀ (post : List (String × Json)) (k fuel : Nat) (c : Cursor), ms.drop k = post →
      c.rest = post.flatMap (fun m => 44 :: memberBytes m) ++ 125 :: rest →
      (post.flatMap (fun m => 44 :: memberBytes m)).length < fuel →
      readRecord.members spec false (filledFields as k ms.length) fuel c =
        .ok ((as.map some).toArray) (c.skip (post.flatMap (fun m => 44 :: memberBytes m)).length)
  | [], k, fuel + 1, c, hdrop, h, _ => by
    have hk : ms.length ≤ k := by simpa using hdrop
    rw [readRecord.members, bind_of_ok (nextKey_close h)]
    simp only [filledFields, List.take_of_length_le (hf.length ▸ hk), Nat.sub_eq_zero_of_le hk,
      List.replicate_zero, List.append_nil, List.flatMap_nil, List.length_nil, Cursor.skip_zero]
    rfl
  | m :: post, k, fuel + 1, c, hdrop, h, hlen => by
    have hk : k < ms.length := Nat.lt_of_not_le fun hk => by
      rw [List.drop_eq_nil_of_le hk] at hdrop
      exact List.cons_ne_nil _ _ hdrop.symm
    rw [List.drop_eq_getElem_cons hk, List.cons.injEq] at hdrop
    obtain ⟨rfl, hpost⟩ := hdrop
    have hm : c.rest = 44 :: (memberBytes ms[k] ++ (post.flatMap (fun m => 44 :: memberBytes m) ++ 125 :: rest)) := by
      rw [h]
      simp
    obtain ⟨hkey, h₁, h₂⟩ := rest_commaMember hm
    have hlen' : (post.flatMap (fun m => 44 :: memberBytes m)).length < fuel := by
      simp only [List.flatMap_cons, List.length_append, List.length_cons] at hlen
      omega
    rw [hf.members_member hk (nextKey_comma hkey) h₁ (delimited_members post rest),
      members_rest hf post (k + 1) fuel _ hpost h₂ hlen']
    simp only [Cursor.skip_skip, List.flatMap_cons, List.length_append, List.length_cons, memberBytes]
    exact congrArg (fun n => EStateM.Result.ok _ (Cursor.skip _ n)) (by ac_rfl)

/-- All members of the object are read up to its closing brace. -/
theorem members_all (hf : ReadsFields spec ms as) {rest : List UInt8} (fuel : Nat) (c : Cursor)
    (h : c.rest = [44].intercalate (ms.map memberBytes) ++ 125 :: rest)
    (hlen : ([44].intercalate (ms.map memberBytes)).length < fuel) :
    readRecord.members spec true (filledFields as 0 ms.length) fuel c =
      .ok ((as.map some).toArray) (c.skip ([44].intercalate (ms.map memberBytes)).length) := by
  obtain ⟨fuel, rfl⟩ : ∃ f, fuel = f + 1 := ⟨fuel - 1, by omega⟩
  cases ms with
  | nil =>
    have has : as = [] := List.eq_nil_of_length_eq_zero hf.length
    subst has
    rw [readRecord.members, bind_of_ok (nextKey_close h)]
    rfl
  | cons m ms =>
    have hflat : (ms.map memberBytes).flatMap ([44] ++ ·) = ms.flatMap (fun m => 44 :: memberBytes m) := by
      simp [List.flatMap_map]
    rw [List.map_cons, intercalate_cons_eq_flatMap, hflat] at h hlen ⊢
    have hm : c.rest = memberBytes m ++ (ms.flatMap (fun m => 44 :: memberBytes m) ++ 125 :: rest) := by
      rw [h]
      simp
    obtain ⟨hkey, h₁, h₂⟩ := rest_firstMember hm
    have hlen' : (ms.flatMap (fun m => 44 :: memberBytes m)).length < fuel := by
      have : 1 ≤ (memberBytes m).length := by simp [memberBytes]; omega
      rw [List.length_append] at hlen
      omega
    rw [hf.members_member (k := 0) (by simp) (nextKey_first hkey) h₁ (delimited_members ms rest)]
    simp only [List.getElem_cons_zero, Nat.zero_add]
    rw [hf.members_rest ms 1 fuel _ rfl h₂ hlen']
    have hm : (memberBytes m).length = (textBytes (quote m.1)).length + 1 + (textBytes (compact m.2)).length := by
      simp [memberBytes]
      omega
    simp only [Cursor.skip_skip, List.length_append, hm]
    exact congrArg (fun n => EStateM.Result.ok _ (Cursor.skip _ n)) (by omega)

end ReadsFields

/-- The members of an object written in the order of a record's fields, of which the first `k`
are read, as `as`, and member `k` is one its field's reader fails on. -/
structure FailsAt (spec : RecordSpec α β) (ms : List (String × Json)) (as : List α) (k : Nat) : Prop where
  names : ms.map Prod.fst = spec.fields
  nodup : spec.fields.Nodup
  length : as.length = k
  lt : k < ms.length
  reads : ∀ i (hm : i < ms.length) (ha : i < as.length), Reads (spec.field i) ms[i].2 as[i]
  fails : ∀ hk : k < ms.length, Fails (spec.field k) ms[k].2

namespace FailsAt

variable {spec : RecordSpec α β} {ms : List (String × Json)} {as : List α} {k : Nat}

/-- The members after the first, from one not after member `k`, fail by member `k`. -/
theorem members_rest (hf : FailsAt spec ms as k) {rest : List UInt8} :
    ∀ (post : List (String × Json)) (i fuel : Nat) (c : Cursor), ms.drop i = post → i ≤ k →
      c.rest = post.flatMap (fun m => 44 :: memberBytes m) ++ 125 :: rest →
      Errs (readRecord.members spec false (filledFields as i ms.length) fuel) c
  | [], i, _, _, hdrop, hik, _ => absurd (List.drop_eq_nil_iff.1 hdrop) (by have := hf.lt; omega)
  | _ :: _, _, 0, _, _, _, _ => members_zero
  | m :: post, i, fuel + 1, c, hdrop, hik, h => by
    have hi : i < ms.length := by have := hf.lt; omega
    rw [List.drop_eq_getElem_cons hi, List.cons.injEq] at hdrop
    obtain ⟨rfl, hpost⟩ := hdrop
    have hm : c.rest = 44 :: (memberBytes ms[i] ++ (post.flatMap (fun m => 44 :: memberBytes m) ++ 125 :: rest)) := by
      rw [h]
      simp
    obtain ⟨hkey, h₁, h₂⟩ := rest_commaMember hm
    have hfree : (filledFields as i ms.length).getD i none = none :=
      getD_filledFields (by rw [hf.length]; exact hik)
    -- member `i` is the failing one, or one that reads and passes the walk on
    rcases Nat.lt_or_eq_of_le hik with hlt | rfl
    · have hia : i < as.length := by rw [hf.length]; exact hlt
      rw [Errs, members_read (idxOf?_of_names hf.names hf.nodup hi) hfree (nextKey_comma hkey) h₁
        (delimited_members post rest) (hf.reads i hi hia), set!_filledFields hia hi]
      exact hf.members_rest post (i + 1) fuel _ hpost hlt h₂
    · exact members_fails_here (idxOf?_of_names hf.names hf.nodup hi) hfree (nextKey_comma hkey) h₁
        (delimited_members post rest) (hf.fails hi)

/-- All members of the object: they fail by member `k`. -/
theorem members (hf : FailsAt spec ms as k) {rest : List UInt8} (fuel : Nat) (c : Cursor)
    (h : c.rest = [44].intercalate (ms.map memberBytes) ++ 125 :: rest) :
    Errs (readRecord.members spec true (filledFields as 0 ms.length) fuel) c := by
  obtain ⟨m, ms', hms⟩ := List.exists_cons_of_length_pos (Nat.lt_of_le_of_lt (Nat.zero_le k) hf.lt)
  subst hms
  cases fuel with
  | zero => exact members_zero
  | succ fuel =>
  have hm : c.rest = memberBytes m ++ (ms'.flatMap (fun m => 44 :: memberBytes m) ++ 125 :: rest) := by
    rw [h, List.map_cons, intercalate_cons_eq_flatMap]
    simp [List.flatMap_map]
  obtain ⟨hkey, h₁, h₂⟩ := rest_firstMember hm
  have hfree : (filledFields as 0 (m :: ms').length).getD 0 none = none := getD_filledFields (Nat.zero_le _)
  have hidx := idxOf?_of_names hf.names hf.nodup (k := 0) (by simp)
  -- the first member fails, or reads and the walk goes on after its comma
  rcases Nat.eq_zero_or_pos k with rfl | hpos
  · exact members_fails_here hidx hfree (nextKey_first hkey) h₁ (delimited_members ms' rest) (hf.fails hf.lt)
  · have ha : 0 < as.length := by rw [hf.length]; exact hpos
    rw [Errs, members_read hidx hfree (nextKey_first hkey) h₁ (delimited_members ms' rest)
      (hf.reads 0 (by simp) ha),
      set!_filledFields ha (by simp)]
    exact hf.members_rest ms' 1 fuel _ rfl hpos h₂

end FailsAt

theorem filledFields_zero (as : List α) (n : Nat) : filledFields as 0 n = Array.replicate n none := by
  simp [filledFields]

/-- Collecting read fields that are all present gives their values in order. -/
theorem forIn_zip_some {f : String × Option α → Array α → JsonReader (ForInStep (Array α))}
    (hf : ∀ name a out, f (name, some a) out c = .ok (.yield (out.push a)) c) :
    ∀ (names : List String) (as : List α) (out : Array α), names.length = as.length →
      forIn (names.zip (as.map some)) out f c = .ok (out ++ as.toArray) c
  | [], [], out, _ => by simp
  | name :: names, a :: as, out, hlen => by
    rw [List.map_cons, List.zip_cons_cons, List.forIn_cons, bind_of_ok (hf name a out)]
    show forIn (names.zip (as.map some)) (out.push a) f c = _
    rw [forIn_zip_some hf names as (out.push a) (by simpa using hlen)]
    simp

theorem readRecord_reads {spec : RecordSpec α β} {ms : List (String × Json)} {as : List α} {b : β}
    (hf : ReadsFields spec ms as) (hbuild : spec.build as = .ok b) : Reads (readRecord spec) (.obj ms) b := by
  intro c rest h hd
  rw [textBytes_compact_obj] at h ⊢
  have h0 : c.rest = 123 :: ([44].intercalate (ms.map memberBytes) ++ 125 :: rest) := by
    rw [h]
    simp
  have h1 := Cursor.rest_skip_one h0
  apply typed_of_ok
  have hfuel := Cursor.length_rest (c.skip 1)
  rw [h1, List.length_append, List.length_cons] at hfuel
  have hn : spec.fields.length = ms.length := by rw [← hf.names, List.length_map]
  rw [bind_of_ok (skipBlanks_of_cons h0 (by decide))]
  simp (disch := decide) only []
  rw [bind_of_ok eat_apply, bind_of_ok get_apply, hn, ← filledFields_zero as]
  have hend : c.skip ([123] ++ [44].intercalate (ms.map memberBytes) ++ [125]).length =
      ((c.skip 1).skip ([44].intercalate (ms.map memberBytes)).length).skip 1 := by
    simp only [Cursor.skip_skip, List.length_append, List.length_singleton]
  rw [hend]
  apply enclosed_of_ok _ (endObject_of_close (Cursor.rest_skip h1))
  rw [bind_of_ok (hf.members_all _ _ h1 (by omega))]
  rw [bind_of_ok (forIn_zip_some (fun _ _ _ => rfl) _ _ _ (by rw [hn, hf.length])),
    show ((#[] : Array α) ++ as.toArray).toList = as by simp, hbuild]
  rfl

/-- A record fails on an object whose member `k` its field's reader fails on, after the members
before it read. -/
theorem readRecord_fails {spec : RecordSpec α β} {ms : List (String × Json)} {as : List α} {k : Nat}
    (hf : FailsAt spec ms as k) : Fails (readRecord spec) (.obj ms) := by
  intro c rest h hd
  rw [textBytes_compact_obj] at h
  have h0 : c.rest = 123 :: ([44].intercalate (ms.map memberBytes) ++ 125 :: rest) := by
    rw [h]
    simp
  have h1 := Cursor.rest_skip_one h0
  have hn : spec.fields.length = ms.length := by rw [← hf.names, List.length_map]
  apply Errs.typed
  refine Errs.bind_of_ok (skipBlanks_of_cons h0 (by decide)) ?_
  simp (disch := decide) only []
  refine Errs.bind_of_ok eat_apply (Errs.bind_of_ok get_apply (Errs.enclosed (Errs.bind ?_)))
  rw [hn, ← filledFields_zero as]
  exact hf.members _ _ h1

theorem finish_of_nil (h : c.rest = []) : finish c = .ok () c := by
  rw [finish, bind_of_ok (skipBlanks_of_nil h)]
  rfl

/-- A reader of a value reads the whole input when the input is the value's compact text. -/
theorem readWhole_reads {r : JsonReader α} {j : Json} {a : α} (h : Reads r j a) {bytes : ByteArray}
    (hbytes : bytes.data.toList = textBytes j.compact) : readWhole r bytes = .ok a := by
  have h0 : (⟨bytes, 0⟩ : Cursor).rest = textBytes j.compact ++ [] := by
    simp [Cursor.rest, hbytes]
  have hend : ((⟨bytes, 0⟩ : Cursor).skip (textBytes j.compact).length).rest = [] := Cursor.rest_skip h0
  have hrun : (do let a ← r; finish; return a : JsonReader α) ⟨bytes, 0⟩ =
      .ok a ((⟨bytes, 0⟩ : Cursor).skip (textBytes j.compact).length) := by
    rw [bind_of_ok (h h0 trivial), bind_of_ok (finish_of_nil hend)]
    rfl
  simp only [readWhole, EStateM.run, hrun]

/-- A reader that fails on a value fails on the whole input that is the value's text. -/
theorem readWhole_fails {r : JsonReader α} {j : Json} (h : Fails r j) {bytes : ByteArray}
    (hbytes : bytes.data.toList = textBytes j.compact) : ∃ e, readWhole r bytes = .error e := by
  have h0 : (⟨bytes, 0⟩ : Cursor).rest = textBytes j.compact ++ [] := by
    simp [Cursor.rest, hbytes]
  obtain ⟨e, c', hrun⟩ := (h h0 trivial).bind (f := fun a => do finish; return a)
  exact ⟨e, by simp only [readWhole, EStateM.run, hrun]⟩

end FrameCache.JsonReader
