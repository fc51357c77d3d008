import Mathlib.Data.List.Forall2
import Mathlib.Data.List.Nodup
import Mathlib.Data.Prod.Lex

/-! # Stable sorting

    A timeline lists its pulses by start and channel, and the pulses are moved along in the
    order of their times. Both orders have ties, and in both the pulses of a tie stay in the
    order in which they came.

    * `StablySorted` says what a stable sort is, without saying how it is found;
    * `StablySorted.of_mergeSort` is the case of the library's merge sort;
    * `StablySorted.filter_lt` cuts sorted items at a key;
    * `StablySorted.eq_mergeSort`: it is the sort by key and position;
    * `StablySorted.unique`: the items as they came determine it;
    * `mergeSort_eq_of_perm`: if every item has a key of its own, the order in which they came is
      forgotten;
    * `forall₂_mergeSort`: items that the order does not tell from others take their places.
-/

namespace PulseTrain

variable {α κ : Type} [LinearOrder κ]

/-- **Stable sort** by a key: the same items, by ascending key, and the items of one key in
    the order in which they came. -/
structure StablySorted (key : α → κ) (items sorted : List α) : Prop where
  /-- Nothing is lost and nothing is added. -/
  perm : sorted.Perm items
  /-- No item stands before one with a smaller key. -/
  ascending : sorted.Pairwise (key · ≤ key ·)
  /-- Items with equal keys do not pass each other. -/
  stable : ∀ k, sorted.filter (key · = k) = items.filter (key · = k)

namespace StablySorted

variable {key : α → κ}

/-- Merge sort by a test for `≤` on keys is stable. -/
theorem of_mergeSort {le : α → α → Bool} (hle : ∀ a b, le a b = true ↔ key a ≤ key b)
    (items : List α) : StablySorted key items (items.mergeSort le) := by
  have htrans : ∀ a b c, le a b = true → le b c = true → le a c = true := by
    intro a b c hab hbc
    exact (hle a c).mpr (le_trans ((hle a b).mp hab) ((hle b c).mp hbc))
  have htotal : ∀ a b, (le a b || le b a) = true := by
    intro a b
    rw [Bool.or_eq_true, hle, hle]
    exact le_total _ _
  have hperm := List.mergeSort_perm items le
  refine ⟨hperm, ?_, ?_⟩
  · exact (List.pairwise_mergeSort htrans htotal items).imp (fun {a b} h => (hle a b).mp h)
  · intro k
    -- the items of one key are in order already, so the sort keeps them as a sublist
    have hsorted : (items.filter (key · = k)).Pairwise (fun a b => le a b = true) := by
      refine List.pairwise_of_forall_mem_list ?_
      intro a ha b hb
      have hka : key a = k := by simpa using (List.mem_filter.mp ha).2
      have hkb : key b = k := by simpa using (List.mem_filter.mp hb).2
      rw [hle, hka, hkb]
    have hsub := List.sublist_mergeSort htrans htotal hsorted List.filter_sublist
    have hkept := hsub.filter (key · = k)
    rw [List.filter_filter] at hkept
    simp only [Bool.and_self] at hkept
    exact (hkept.eq_of_length (hperm.filter _).length_eq.symm).symm

/-- Items in ascending order fall into those below a key, those at the key and those above. -/
theorem append_filter_of_ascending {l : List α} (h : l.Pairwise (key · ≤ key ·)) (k : κ) :
    l = l.filter (key · < k) ++ l.filter (key · = k) ++ l.filter (k < key ·) := by
  -- by induction on the list, whose first item is below the key, at it or above it
  induction l with
  | nil => rfl
  | cons a rest ih =>
    obtain ⟨ha, hrest⟩ := List.pairwise_cons.mp h
    have ih := ih hrest
    have hbelow : k ≤ key a → rest.filter (key · < k) = [] := by
      intro hk
      rw [List.filter_eq_nil_iff]
      intro b hb
      have hkb : k ≤ key b := hk.trans (ha b hb)
      simpa using hkb
    -- behind an item at or above the key nothing is below it
    rcases lt_trichotomy (key a) k with hlt | heq | hgt
    · simp only [List.filter_cons, hlt, hlt.ne, not_lt_of_gt hlt, decide_true, decide_false,
        if_true, Bool.false_eq_true, if_false, List.cons_append]
      rw [← ih]
    · rw [hbelow heq.ge, List.nil_append] at ih
      simp only [List.filter_cons, heq, lt_irrefl, decide_true, decide_false, if_true,
        Bool.false_eq_true, if_false]
      rw [hbelow heq.ge, List.nil_append, List.cons_append, ← ih]
    · have hat : rest.filter (key · = k) = [] := by
        rw [List.filter_eq_nil_iff]
        intro b hb
        have hkb : k < key b := hgt.trans_le (ha b hb)
        simpa using hkb.ne'
      rw [hbelow hgt.le, hat, List.nil_append, List.nil_append] at ih
      simp only [List.filter_cons, hgt, hgt.ne', not_lt_of_gt hgt, decide_true, decide_false,
        if_true, Bool.false_eq_true, if_false]
      rw [hbelow hgt.le, hat, List.nil_append, List.nil_append, ← ih]

/-- Of the sorted items below a bound, those of one key stand together, as they came. -/
theorem filter_lt {items sorted : List α} (h : StablySorted key items sorted) {k t : κ}
    (hkt : k < t) :
    sorted.filter (key · < t) = sorted.filter (key · < k) ++ items.filter (key · = k) ++
      sorted.filter (fun a => k < key a ∧ key a < t) := by
  rw [← h.stable k]
  -- in ascending order those before a key stand in front, those of it next, and then the rest
  have hsplit := append_filter_of_ascending (h.ascending.filter fun a => decide (key a < t)) k
  rw [List.filter_filter, List.filter_filter, List.filter_filter] at hsplit
  rw [hsplit]
  congr 1
  · congr 1
    · apply List.filter_congr
      intro a _
      by_cases ha : key a < k
      · simp [ha, ha.trans hkt]
      · simp [ha]
    · apply List.filter_congr
      intro a _
      by_cases ha : key a = k
      · simp [ha, hkt]
      · simp [ha]
  · apply List.filter_congr
    intro a _
    simp

/-- Some of the items are sorted as they are among all. -/
theorem filter {items sorted : List α} (h : StablySorted key items sorted) (keep : α → Bool) :
    StablySorted key (items.filter keep) (sorted.filter keep) := by
  refine ⟨h.perm.filter keep, h.ascending.filter keep, ?_⟩
  intro k
  rw [List.filter_comm, h.stable, List.filter_comm]

/-- Items are sorted as what they stand for, if that has their keys. -/
theorem map {β : Type} {key : β → κ} {items sorted : List α} (f : α → β)
    (h : StablySorted (fun a => key (f a)) items sorted) :
    StablySorted key (items.map f) (sorted.map f) := by
  refine ⟨h.perm.map f, List.pairwise_map.mpr h.ascending, ?_⟩
  intro k
  rw [List.filter_map, List.filter_map]
  exact congrArg (List.map f) (h.stable k)

/-- What holds between each item and the later ones still holds within a tie. -/
theorem pairwise_ties {R : α → α → Prop} {items sorted : List α}
    (h : StablySorted key items sorted) (hitems : items.Pairwise R) :
    sorted.Pairwise fun a b => key a < key b ∨ key a = key b ∧ R a b := by
  rw [List.pairwise_iff_forall_sublist]
  intro a b hab
  have hle : key a ≤ key b := List.pairwise_iff_forall_sublist.mp h.ascending hab
  rcases hle.lt_or_eq with hlt | heq
  · exact Or.inl hlt
  · have htie := hab.filter (key · = key a)
    rw [h.stable] at htie
    simp only [List.filter_cons, heq, decide_true, if_true, List.filter_nil] at htie
    exact Or.inr ⟨heq, List.pairwise_iff_forall_sublist.mp (hitems.filter _) htie⟩

/-- A stable sort is the sort by the key and then by the position. -/
theorem eq_mergeSort {pos : α → ℕ} {le : α → α → Bool} {items sorted : List α}
    (h : StablySorted key items sorted) (hpos : items.Pairwise (pos · < pos ·))
    (hle : ∀ a ∈ items, ∀ b ∈ items,
      le a b = true ↔ key a < key b ∨ key a = key b ∧ pos a ≤ pos b) :
    sorted = items.mergeSort le := by
  -- the test sorts items only, so it may be replaced by one that is an order everywhere
  let byBoth : α → α → Bool := fun a b => decide (toLex (key a, pos a) ≤ toLex (key b, pos b))
  have hbyBoth : ∀ a b, byBoth a b = true ↔ key a < key b ∨ key a = key b ∧ pos a ≤ pos b := by
    intro a b
    rw [decide_eq_true_eq, Prod.Lex.toLex_le_toLex]
  have hsame : items.mergeSort le = items.mergeSort byBoth := by
    have hmap := List.map_mergeSort (r := le) (s := byBoth) (f := id) (l := items) ?_
    · rwa [List.map_id, List.map_id] at hmap
    · intro a ha b hb
      rw [Bool.eq_iff_iff, hle a ha b hb]
      exact (hbyBoth a b).symm
  have hsort : StablySorted (fun a => toLex (key a, pos a)) items (items.mergeSort byBoth) :=
    of_mergeSort (fun a b => decide_eq_true_iff) items
  -- the list is in this order too, because items of one key stand by their positions
  have hlex : sorted.Pairwise fun a b => toLex (key a, pos a) ≤ toLex (key b, pos b) := by
    refine (h.pairwise_ties hpos).imp ?_
    intro a b hab
    rw [Prod.Lex.toLex_le_toLex]
    exact hab.imp id fun htie => ⟨htie.1, htie.2.le⟩
  have hnodup : (items.map pos).Nodup := by
    rw [List.Nodup, List.pairwise_map]
    exact hpos.imp Nat.ne_of_lt
  rw [hsame]
  refine (h.perm.trans hsort.perm.symm).eq_of_pairwise ?_ hlex hsort.ascending
  intro a b ha hb hab hba
  have hboth : (key a, pos a) = (key b, pos b) := toLex.injective (le_antisymm hab hba)
  exact List.inj_on_of_nodup_map hnodup (h.perm.mem_iff.mp ha) (hsort.perm.mem_iff.mp hb)
    (Prod.mk.inj hboth).2

theorem mem_iff_of_filter_eq {l l' : List α} {a : α}
    (hties : ∀ k, l.filter (key · = k) = l'.filter (key · = k)) : a ∈ l ↔ a ∈ l' := by
  have htie : a ∈ l.filter (key · = key a) ↔ a ∈ l'.filter (key · = key a) := by rw [hties]
  simpa using htie

/-- Lists in ascending order are the same if they are for each key. -/
theorem eq_of_filter_eq {l l' : List α} (hl : l.Pairwise (key · ≤ key ·))
    (hl' : l'.Pairwise (key · ≤ key ·))
    (hties : ∀ k, l.filter (key · = k) = l'.filter (key · = k)) : l = l' := by
  -- by induction on both lists at once
  induction l generalizing l' with
  | nil =>
    rw [eq_comm, List.eq_nil_iff_forall_not_mem]
    intro a ha
    exact absurd ((mem_iff_of_filter_eq hties).mpr ha) List.not_mem_nil
  | cons a rest ih =>
    have hmem : ∀ c, c ∈ a :: rest ↔ c ∈ l' := fun _ => mem_iff_of_filter_eq hties
    obtain _ | ⟨b, rest'⟩ := l'
    · exact absurd ((hmem a).mp List.mem_cons_self) List.not_mem_nil
    · obtain ⟨ha, hrest⟩ := List.pairwise_cons.mp hl
      obtain ⟨hb, hrest'⟩ := List.pairwise_cons.mp hl'
      -- both lists begin with the smallest key, and so with the first item of this key
      have hkey : key a = key b := by
        apply le_antisymm
        · rcases List.mem_cons.mp ((hmem b).mpr List.mem_cons_self) with rfl | hmem
          · exact le_refl _
          · exact ha b hmem
        · rcases List.mem_cons.mp ((hmem a).mp List.mem_cons_self) with rfl | hmem
          · exact le_refl _
          · exact hb a hmem
      have hfirst := hties (key a)
      simp only [List.filter_cons, ← hkey, decide_true, if_true, List.cons.injEq] at hfirst
      obtain ⟨rfl, _⟩ := hfirst
      have hlater : ∀ k, rest.filter (key · = k) = rest'.filter (key · = k) := by
        intro k
        have htie := hties k
        simp only [List.filter_cons] at htie
        split at htie
        · exact (List.cons.inj htie).2
        · exact htie
      rw [ih hrest hrest' hlater]

/-- There is one stable sort of given items. -/
theorem unique {items sorted sorted' : List α} (h : StablySorted key items sorted)
    (h' : StablySorted key items sorted') : sorted = sorted' :=
  eq_of_filter_eq h.ascending h'.ascending fun k => (h.stable k).trans (h'.stable k).symm

end StablySorted

/-- Items that all have a key of their own are sorted into the same list, however they came. -/
theorem mergeSort_eq_of_perm {key : α → κ} (hkey : Function.Injective key) {le : α → α → Bool}
    (hle : ∀ a b, le a b = true ↔ key a ≤ key b) {l l' : List α} (h : l.Perm l') :
    l.mergeSort le = l'.mergeSort le := by
  have hsorted := StablySorted.of_mergeSort hle l
  have hsorted' := StablySorted.of_mergeSort hle l'
  have hperm : (l.mergeSort le).Perm (l'.mergeSort le) :=
    (hsorted.perm.trans h).trans hsorted'.perm.symm
  refine hperm.eq_of_pairwise ?_ hsorted.ascending hsorted'.ascending
  intro a b _ _ hab hba
  exact hkey (le_antisymm hab hba)

/-- Lists of which the items are related one by one are sorted into lists of the same kind, if
    related items are compared alike. -/
theorem forall₂_mergeSort {α β : Type} {R : α → β → Prop} {le : α → α → Bool}
    {le' : β → β → Bool} (hle : ∀ a b a' b', R a a' → R b b' → le a b = le' a' b')
    {l : List α} {l' : List β} (h : List.Forall₂ R l l') :
    List.Forall₂ R (l.mergeSort le) (l'.mergeSort le') := by
  obtain ⟨hlength, hpairs⟩ := List.forall₂_iff_zip.mp h
  -- both lists are sorted by sorting the pairs
  have hleft : ((l.zip l').mergeSort fun a b => le a.1 b.1).map Prod.fst = l.mergeSort le := by
    rw [List.map_mergeSort (s := le) fun _ _ _ _ => rfl, List.map_fst_zip hlength.le]
  have hright : ((l.zip l').mergeSort fun a b => le a.1 b.1).map Prod.snd = l'.mergeSort le' := by
    rw [List.map_mergeSort fun a ha b hb => hle _ _ _ _ (hpairs ha) (hpairs hb),
      List.map_snd_zip hlength.ge]
  rw [← hleft, ← hright, List.forall₂_map_left_iff, List.forall₂_map_right_iff,
    List.forall₂_same]
  intro pair hpair
  exact hpairs (List.mem_mergeSort.mp hpair)

end PulseTrain
