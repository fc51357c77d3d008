import Mathlib.Data.List.Perm.Basic
import PulseTrain.Json.Timeline
import PulseTrain.Proofs.Table

/-! # Transcripts of documents

    A document that has been written and is read again need not be the same tree. Whoever writes it
    may choose another numeral for a double, and may or may not keep the order in which an object
    has its members. A reader that goes by keys and takes a numeral for its double does not see
    this, except where the members are the entries of a table, which comes out in the new order.

    * **Order**: `MemberOrder.Allows`, and `MemberOrder.Allows.forall₂` to carry what is related
      item by item over to another order;
    * **Lists**: `forall₂_choose` and `mapM_eq_some` for lists item by item, and `SameKey` for lists
      of pairs;
    * **Transcripts**: `JsonValue.Transcript`, what may become of a document, with
      `JsonValue.Transcript.refl` for one that stays as it is;
    * **Reading**: `float?_of_transcript`, `list?_of_transcript`, `table?_of_transcript`,
      `fields?_of_transcript` and `variant?_of_transcript`, one lemma for each way to take a
      document apart.
-/

namespace PulseTrain

/-! ## Order -/

/-- What happens to the order of the members of an object. -/
inductive MemberOrder where
  /-- The members stay in the order in which they were written. -/
  | kept
  /-- The members may come in any order. -/
  | free

namespace MemberOrder

variable {order : MemberOrder} {α β : Type}

/-- Whether items may come in another order. -/
def Allows : MemberOrder → (items rearranged : List α) → Prop
  | kept, items, rearranged => rearranged = items
  | free, items, rearranged => items.Perm rearranged

theorem Allows.refl : (order : MemberOrder) → (items : List α) → order.Allows items items
  | kept, _ => rfl
  | free, items => List.Perm.refl items

/-- No item is lost or added. -/
theorem Allows.perm {items rearranged : List α} (h : order.Allows items rearranged) :
    items.Perm rearranged := by
  cases order with
  | kept => exact h ▸ List.Perm.refl items
  | free => exact h

/-- An item alone stays where it is. -/
theorem Allows.eq_singleton {a : α} {rearranged : List α} (h : order.Allows [a] rearranged) :
    rearranged = [a] :=
  (List.singleton_perm.mp h.perm).symm

/-- Items that are related one by one are so in any order. -/
theorem Allows.forall₂ {r : α → β → Prop} {items rearranged : List α} {others : List β}
    (horder : order.Allows items rearranged) (h : List.Forall₂ r items others) :
    ∃ rearranged', List.Forall₂ r rearranged rearranged' ∧ order.Allows others rearranged' := by
  cases order with
  | kept =>
    cases horder
    exact ⟨others, h, rfl⟩
  | free => exact List.perm_comp_forall₂ horder.symm h |>.imp fun _ h => ⟨h.1, h.2.symm⟩

end MemberOrder

/-! ## Lists -/

section Lists

variable {α β γ : Type} {r : α → β → Prop}

/-- What each two related items lead to, all of them lead to one by one. -/
theorem forall₂_choose {p : β → γ → Prop} {q : α → γ → Prop} {l : List α} {m : List β}
    (h : List.Forall₂ r l m) (hitem : ∀ a ∈ l, ∀ b, r a b → ∃ c, p b c ∧ q a c) :
    ∃ n, List.Forall₂ p m n ∧ List.Forall₂ q l n := by
  induction h with
  | nil => exact ⟨[], .nil, .nil⟩
  | @cons a b l m hab _ ih =>
    obtain ⟨c, hbc, hac⟩ := hitem a List.mem_cons_self b hab
    obtain ⟨n, hp, hq⟩ := ih fun a' ha' => hitem a' (List.mem_cons_of_mem a ha')
    exact ⟨c :: n, .cons hbc hp, .cons hac hq⟩

/-- If every item has a result, these are the results of the list. -/
theorem mapM_eq_some {f : α → Option β} {l : List α} {m : List β}
    (h : List.Forall₂ (fun a b => f a = some b) l m) : l.mapM f = some m := by
  induction h with
  | nil => rfl
  | cons hb _ ih =>
    rw [List.mapM_cons, hb, ih]
    rfl

/-- Two pairs of the same key whose values are related. -/
inductive SameKey {κ α β : Type} (r : α → β → Prop) : κ × α → κ × β → Prop
  | mk {key : κ} {a : α} {b : β} : r a b → SameKey r (key, a) (key, b)

theorem SameKey.keys_eq {l : List (String × α)} {m : List (String × β)}
    (h : List.Forall₂ (SameKey r) l m) : m.map Prod.fst = l.map Prod.fst := by
  induction h with
  | nil => rfl
  | cons hm _ ih =>
    obtain ⟨_⟩ := hm
    rw [List.map_cons, List.map_cons, ih]

/-- Every value has a counterpart under its key. -/
theorem SameKey.exists_value {l : List (String × α)} {m : List (String × β)}
    (h : List.Forall₂ (SameKey r) l m) :
    ∀ e ∈ l, ∃ b, (e.1, b) ∈ m ∧ r e.2 b := by
  induction h with
  | nil => exact fun e he => absurd he List.not_mem_nil
  | cons hm _ ih =>
    obtain ⟨hr⟩ := hm
    refine List.forall_mem_cons.mpr ⟨⟨_, List.mem_cons_self, hr⟩, fun e he => ?_⟩
    obtain ⟨b, hb, hr'⟩ := ih e he
    exact ⟨b, List.mem_cons_of_mem _ hb, hr'⟩

end Lists

/-! ## Transcripts -/

namespace JsonValue

/-- What may be read where a document was written. -/
inductive Transcript (order : MemberOrder) : (written read : JsonValue) → Prop
  | null : Transcript order .null .null
  | bool (b : Bool) : Transcript order (.bool b) (.bool b)
  | number (n : JsonNumber) : Transcript order (.number n) (.number n)
  /-- A double may be read from any numeral that stands for it. -/
  | double {x : Float} {n : JsonNumber} :
      (JsonValue.number n).float? = some x → Transcript order (.number (.real x)) (.number n)
  | text (s : Option String) : Transcript order (.text s) (.text s)
  | list {items items' : List JsonValue} :
      List.Forall₂ (Transcript order) items items' → Transcript order (.list items) (.list items')
  | object {members members' rearranged : List (Option String × JsonValue)} :
      List.Forall₂ (SameKey (Transcript order)) members members' →
      order.Allows members' rearranged → Transcript order (.object members) (.object rearranged)

namespace Transcript

variable {order : MemberOrder} {v : JsonValue}

/-- A document may stay as it is. -/
theorem refl (order : MemberOrder) : (v : JsonValue) → v.Transcript order v
  | .null => .null
  | .bool b => .bool b
  | .number n => .number n
  | .text s => .text s
  | .list items => .list (List.forall₂_same.mpr fun item _ => refl order item)
  | .object members =>
    .object (List.forall₂_same.mpr fun (_, value) _ => .mk (refl order value)) (.refl order members)
decreasing_by
  · have hitem := List.sizeOf_lt_of_mem (by assumption : item ∈ items)
    simp only [JsonValue.list.sizeOf_spec]
    omega
  · have hmember := List.sizeOf_lt_of_mem (by assumption : (_, value) ∈ members)
    simp only [JsonValue.object.sizeOf_spec, Prod.mk.sizeOf_spec] at hmember ⊢
    omega

/-! ### Leaves -/

/-- A text is read as it was written. -/
theorem string?_of_transcript {s : String} (h : (ofString s).Transcript order v) :
    v.string? = some s := by
  cases h
  rfl

theorem bool?_of_transcript {b : Bool} (h : (JsonValue.bool b).Transcript order v) :
    v.bool? = some b := by
  cases h
  rfl

/-- A number below the bound is read as it was written. -/
theorem natBelow?_ofNat {n bound : Nat} (h : n < bound) : (ofNat n).natBelow? bound = some n := by
  have hrange : (0 : Int) ≤ n ∧ (n : Int) < bound := ⟨Int.natCast_nonneg n, Int.ofNat_lt.mpr h⟩
  rw [ofNat, natBelow?, if_pos hrange, Int.toNat_natCast]

theorem nat16?_of_transcript {n : UInt16} (h : (ofNat n.toNat).Transcript order v) :
    v.nat16? = some n := by
  cases h
  rw [nat16?, ← ofNat, natBelow?_ofNat n.toNat_lt, Option.map_some, UInt16.ofNat_toNat]

theorem nat32?_of_transcript {n : UInt32} (h : (ofNat n.toNat).Transcript order v) :
    v.nat32? = some n := by
  cases h
  rw [nat32?, ← ofNat, natBelow?_ofNat n.toNat_lt, Option.map_some, UInt32.ofNat_toNat]

/-- A finite double is read from whatever numeral stands for it. -/
theorem float?_of_transcript {x : Float} (hx : x.isFinite = true)
    (h : (ofFloat x).Transcript order v) : v.float? = some x := by
  rw [ofFloat, if_pos hx] at h
  cases h with
  | number => rfl
  | double h => exact h

/-- A double that may be absent is read as such if it is finite. -/
theorem optionalFloat?_of_transcript {x : Option Float} (hx : x.all Float.isFinite = true)
    (h : (ofFloat? x).Transcript order v) : v.optionalFloat? = some x := by
  cases x with
  | none =>
    cases h
    rfl
  | some x =>
    have hfloat := float?_of_transcript hx h
    -- what is read as a number is not null
    have hsome : v.optionalFloat? = v.float?.map some := by
      cases v <;> first | rfl | cases hfloat
    rw [hsome, hfloat, Option.map_some]

/-! ### Lists -/

/-- If every item can be read, so can the list. -/
theorem list?_of_transcript {α β : Type} {encode : α → JsonValue} {decode : JsonValue → Option β}
    {r : α → β → Prop} {items : List α}
    (hitem : ∀ a ∈ items, ∀ v, (encode a).Transcript order v → ∃ b, decode v = some b ∧ r a b)
    (h : (listToJson encode items).Transcript order v) :
    ∃ items', v.list? decode = some items' ∧ List.Forall₂ r items items' := by
  cases h with
  | list h =>
    obtain ⟨items', hdecode, hr⟩ := forall₂_choose (List.forall₂_map_left_iff.mp h) hitem
    exact ⟨items', mapM_eq_some hdecode, hr⟩

/-! ### Objects -/

/-- The members that are read have the keys that were written, each with a transcript of the value
    that it had. -/
theorem members?_of_transcript {members : List (String × JsonValue)}
    (h : (ofMembers members).Transcript order v) :
    ∃ members' read, v.members? = some read ∧ order.Allows members' read ∧
      List.Forall₂ (SameKey (Transcript order)) members members' := by
  cases h with
  | object h horder =>
    obtain ⟨members', hkeys, hsame⟩ :=
      forall₂_choose (p := fun m m' => m.1.map (·, m.2) = some m')
        (q := SameKey (Transcript order)) (List.forall₂_map_left_iff.mp h) (by
          rintro ⟨key, value⟩ _ _ ⟨hvalue⟩
          exact ⟨_, rfl, .mk hvalue⟩)
    -- the names are decoded one by one, in whatever order the members come
    obtain ⟨read, hread, horder'⟩ := horder.forall₂ hkeys
    exact ⟨members', read, mapM_eq_some hread, horder', hsame⟩

theorem valuesOf_cons (name : String) (m : String × JsonValue) (rest : List (String × JsonValue)) :
    valuesOf name (m :: rest) =
      if m.1 = name then m.2 :: valuesOf name rest else valuesOf name rest := by
  unfold valuesOf
  rw [List.filterMap_cons]
  split_ifs with h
  · simp only [if_pos h]
  · simp only [if_neg h]

/-- Where no key comes twice, every key has its value and no other. -/
theorem valuesOf_eq_singleton {members : List (String × JsonValue)} {name : String}
    (hnodup : (members.map Prod.fst).Nodup) (h : (name, v) ∈ members) :
    valuesOf name members = [v] := by
  induction members with
  | nil => cases h
  | cons m members ih =>
    obtain ⟨hm, hrest⟩ := List.nodup_cons.mp hnodup
    rw [valuesOf_cons]
    rcases List.mem_cons.mp h with rfl | hlater
    · -- the key does not come again
      have hnone : valuesOf name members = [] :=
        List.filterMap_eq_nil_iff.mpr fun e he => if_neg fun heq =>
          hm (List.mem_map.mpr ⟨e, he, heq⟩)
      rw [if_pos rfl, hnone]
    · have hne : m.1 ≠ name := fun heq => hm (List.mem_map.mpr ⟨_, hlater, heq.symm⟩)
      rw [if_neg hne, ih hrest hlater]

/-- A field is found wherever it stands. -/
theorem field?_eq_some {members read : List (String × JsonValue)} {name : String}
    (hnodup : (members.map Prod.fst).Nodup) (horder : order.Allows members read)
    (h : (name, v) ∈ members) : field? read name = some (some v) := by
  have hvalues : valuesOf name read = [v] := by
    have hperm : (valuesOf name members).Perm (valuesOf name read) := horder.perm.filterMap _
    rw [valuesOf_eq_singleton hnodup h] at hperm
    exact (List.singleton_perm.mp hperm).symm
  rw [field?, hvalues]

theorem fields?_of_members? {names : List String} {members : List (String × JsonValue)}
    (h : v.members? = some members) : v.fields? names = names.mapM (field? members) := by
  cases v with
  | object => simp only [fields?, h]; rfl
  | _ => cases h

/-- Every field that was written is read, in the order in which the fields are asked for. -/
theorem fields?_of_transcript {members : List (String × JsonValue)}
    (hnodup : (members.map Prod.fst).Nodup) (h : (ofMembers members).Transcript order v) :
    ∃ value : String → JsonValue,
      v.fields? (members.map Prod.fst) = some (members.map fun m => some (value m.1)) ∧
        ∀ m ∈ members, m.2.Transcript order (value m.1) := by
  obtain ⟨members', read, hread, horder, hsame⟩ := members?_of_transcript h
  rw [← SameKey.keys_eq hsame] at hnodup
  -- the members of the transcript, of which the keys are those of the document
  let fields : Table JsonValue := ⟨members', hnodup⟩
  let value (name : String) : JsonValue := (fields.get? name).getD .null
  have hvalue : ∀ m ∈ members, (m.1, value m.1) ∈ members' ∧ m.2.Transcript order (value m.1) := by
    intro m hm
    obtain ⟨v', hmem, hv'⟩ := SameKey.exists_value hsame m hm
    have hget : fields.get? m.1 = some v' := Table.get?_eq_some_iff.mpr hmem
    have hvalue : value m.1 = v' := by
      simp only [value, hget, Option.getD_some]
    rw [hvalue]
    exact ⟨hmem, hv'⟩
  refine ⟨value, ?_, fun m hm => (hvalue m hm).2⟩
  rw [fields?_of_members? hread]
  refine mapM_eq_some ?_
  rw [List.forall₂_map_left_iff, List.forall₂_map_right_iff, List.forall₂_same]
  exact fun m hm => field?_eq_some hnodup horder (hvalue m hm).1

/-- If every value can be read, so can the table, with its entries in the order of the members. -/
theorem table?_of_transcript {α : Type} {encode : α → JsonValue} {decode : JsonValue → Option α}
    {t : Table α}
    (hentry : ∀ e ∈ t.entries, ∀ v, (encode e.2).Transcript order v → decode v = some e.2)
    (h : (t.toJson encode).Transcript order v) :
    ∃ t', v.table? decode = some t' ∧ order.Allows t.entries t'.entries := by
  obtain ⟨members', read, hread, horder, hsame⟩ := members?_of_transcript h
  rw [List.forall₂_map_left_iff] at hsame
  -- what is read of each member is the entry that was written
  have hdecode : List.Forall₂ (fun m e => (decode m.2).map (m.1, ·) = some e)
      members' t.entries := by
    obtain ⟨entries, hdecode, heq⟩ :=
      forall₂_choose (p := fun m e => (decode m.2).map (m.1, ·) = some e) (q := Eq) hsame (by
        rintro ⟨key, value⟩ he _ ⟨hvalue⟩
        exact ⟨_, by rw [hentry _ he _ hvalue, Option.map_some], rfl⟩)
    rw [List.forall₂_eq_eq_eq] at heq
    exact heq ▸ hdecode
  obtain ⟨entries, hentries, horder'⟩ := horder.forall₂ hdecode
  have hpairs : (read.mapM fun m => (decode m.2).map (m.1, ·)) = some entries :=
    mapM_eq_some hentries
  refine ⟨.ofList entries, ?_, ?_⟩
  · rw [table?, hread]
    change (read.mapM fun m => (decode m.2).map (m.1, ·)).bind
      (fun pairs => some (Table.ofList pairs)) = _
    rw [hpairs]
    rfl
  · -- the names of a table are different, so none of the entries replaces another
    have hnodup : (entries.map Prod.fst).Nodup :=
      (horder'.perm.map Prod.fst).nodup_iff.mp t.nodup
    rw [Table.entries_ofList hnodup]
    exact horder'

/-- A choice with a content is an object with a single member, whatever the order. -/
theorem variant?_of_transcript {name : String} {content : JsonValue}
    (h : (ofMembers [(name, content)]).Transcript order v) :
    ∃ content', v.variant? = some (name, some content') ∧ content.Transcript order content' := by
  cases h with
  | object h horder =>
    rw [List.map_cons, List.map_nil] at h
    cases h with
    | cons hm hnil =>
      obtain ⟨hvalue⟩ := hm
      cases hnil
      cases horder.eq_singleton
      exact ⟨_, rfl, hvalue⟩

end Transcript

end JsonValue

end PulseTrain
