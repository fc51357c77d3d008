import Mathlib.Data.List.Find
import Mathlib.Data.List.Perm.Basic
import Mathlib.Data.List.Nodup
import PulseTrain.Preset.Basic
import PulseTrain.Proofs.Success
import PulseTrain.Proofs.Table

/-! # Filling in a template

    The arguments are put into a template one after another, each into the text that the others
    before it have left. So a placeholder that comes in with the text of an argument is filled in
    as well, if its parameter is declared later, and left alone otherwise.

    * **Texts**: `Paired`, every opening brace is closed before the next one is opened;
    * **Single pass**: `substitute` puts all arguments in at once;
    * **Step**: `replaceAll_group`, what one argument does to a placeholder, and
      `Paired.replaceAll`;
    * **Run**: `fillWith_eq_substitute`, filling in is one pass over arguments whose own texts have
      been filled in with the later ones.
-/

namespace PulseTrain.Preset

open Success

/-! ## Texts with braces -/

/-- A text without braces. -/
def Plain (s : List Char) : Prop := '{' ∉ s ∧ '}' ∉ s

instance (s : List Char) : Decidable (Plain s) := inferInstanceAs (Decidable (_ ∧ _))

def braced (body : List Char) : List Char := '{' :: (body ++ ['}'])

/-- A text in which every opening brace is closed before the next one is opened. -/
inductive Paired : List Char → Prop where
  | nil : Paired []
  | char {c : Char} {s : List Char} (hc : c ≠ '{') (hs : Paired s) : Paired (c :: s)
  | group {body s : List Char} (hbody : Plain body) (hs : Paired s) : Paired (braced body ++ s)

/-- A text into which no brace has been put is paired. -/
theorem Paired.of_notMem {s : List Char} (h : '{' ∉ s) : Paired s := by
  induction s with
  | nil => exact .nil
  | cons c s ih =>
    rw [List.mem_cons, not_or] at h
    exact .char (Ne.symm h.1) (ih h.2)

theorem Paired.append {x y : List Char} (hx : Paired x) (hy : Paired y) : Paired (x ++ y) := by
  induction hx with
  | nil => exact hy
  | char hc _ ih => exact .char hc ih
  | group hbody _ ih =>
    rw [List.append_assoc]
    exact .group hbody ih

theorem Paired.braced {body : List Char} (h : Plain body) : Paired (braced body) := by
  have hgroup := Paired.group h .nil
  rwa [List.append_nil] at hgroup

/-- What stands before the first closing brace can be read off a text. -/
theorem eq_of_append_brace {u v a b : List Char} (hu : '}' ∉ u) (hv : '}' ∉ v)
    (h : u ++ '}' :: a = v ++ '}' :: b) : u = v := by
  have htake : ∀ {w c : List Char}, '}' ∉ w → (w ++ '}' :: c).takeWhile (· ≠ '}') = w := by
    intro w c hw
    rw [List.takeWhile_append_of_pos]
    · simp
    · intro x hx
      have hne : x ≠ '}' := fun heq => hw (heq ▸ hx)
      simpa using hne
  rw [← htake hu, h, htake hv]

/-- Which placeholder stands at the beginning of a text in braces. -/
theorem isPrefixOf_group {name : String} {body : List Char} (hname : Plain name.toList)
    (hbody : Plain body) (s : List Char) :
    (placeholder name).isPrefixOf (braced body ++ s) = decide (name.toList = body) := by
  rw [Bool.eq_iff_iff, List.isPrefixOf_iff_prefix, decide_eq_true_iff]
  constructor
  · rintro ⟨rest, hrest⟩
    apply eq_of_append_brace hname.2 hbody.2 (a := rest) (b := s)
    have htail := (List.cons.inj hrest).2
    simpa using htail
  · rintro rfl
    exact List.prefix_append (placeholder name) s

/-! ## One argument -/

section replaceAll

variable {name : String} {text : List Char}

theorem replaceAll_nil (pattern text : List Char) : replaceAll pattern text [] = [] := by
  rw [replaceAll]

/-- A placeholder begins with an opening brace. -/
theorem replaceAll_char {c : Char} (hc : c ≠ '{') (s : List Char) :
    replaceAll (placeholder name) text (c :: s) = c :: replaceAll (placeholder name) text s := by
  rw [replaceAll, if_neg]
  intro h
  simp [placeholder, List.isPrefixOf] at h
  exact hc h.1.symm

theorem replaceAll_of_notMem {s : List Char} (h : '{' ∉ s) (y : List Char) :
    replaceAll (placeholder name) text (s ++ y) = s ++ replaceAll (placeholder name) text y := by
  induction s with
  | nil => rfl
  | cons c s ih =>
    rw [List.mem_cons, not_or] at h
    rw [List.cons_append, replaceAll_char (Ne.symm h.1), ih h.2, List.cons_append]

/-- **Step** on a text in braces: the placeholder of the argument gives way to its text, and
    nothing else does. -/
theorem replaceAll_group {body : List Char} (hname : Plain name.toList) (hbody : Plain body)
    (s : List Char) :
    replaceAll (placeholder name) text (braced body ++ s) =
      (if name.toList = body then text else braced body) ++
        replaceAll (placeholder name) text s := by
  have hprefix := isPrefixOf_group hname hbody s
  change (placeholder name).isPrefixOf ('{' :: (body ++ ['}'] ++ s)) = _ at hprefix
  show replaceAll (placeholder name) text ('{' :: (body ++ ['}'] ++ s)) = _
  rw [replaceAll, hprefix]
  -- a group in braces is replaced as a whole or not touched at all
  by_cases heq : name.toList = body
  · rw [if_pos (by simp [placeholder, heq]), if_pos heq]
    have hlength : (placeholder name).length - 1 = (body ++ ['}']).length := by
      rw [← heq]
      rfl
    rw [hlength, List.drop_left]
  · rw [if_neg (by simp [heq]), if_neg heq]
    have hfree : '{' ∉ body ++ ['}'] := by
      simpa using hbody.1
    rw [replaceAll_of_notMem hfree]
    rfl

/-- What one argument does to a paired text it does piece by piece. -/
theorem Paired.replaceAll_append {x : List Char} (hx : Paired x) (hname : Plain name.toList)
    (y : List Char) :
    replaceAll (placeholder name) text (x ++ y) =
      replaceAll (placeholder name) text x ++ replaceAll (placeholder name) text y := by
  induction hx with
  | nil => rw [replaceAll_nil]; rfl
  | char hc _ ih =>
    rw [List.cons_append, replaceAll_char hc, replaceAll_char hc, ih, List.cons_append]
  | group hbody _ ih =>
    rw [List.append_assoc, replaceAll_group hname hbody, replaceAll_group hname hbody, ih,
      List.append_assoc]

/-- A paired text is paired after an argument with a paired text has been put in. -/
theorem Paired.replaceAll {x : List Char} (hx : Paired x) (hname : Plain name.toList)
    (htext : Paired text) : Paired (replaceAll (placeholder name) text x) := by
  -- by induction on the text, where what is put into a group is paired itself
  induction hx with
  | nil =>
    rw [replaceAll_nil]
    exact .nil
  | char hc _ ih =>
    rw [replaceAll_char hc]
    exact .char hc ih
  | group hbody _ ih =>
    rw [replaceAll_group hname hbody]
    refine Paired.append ?_ ih
    split
    · exact htext
    · exact Paired.braced hbody

end replaceAll

/-! ## A single pass -/

/-- A text in which each placeholder gives way to the text of its argument, in one pass from the
    left. What has been put in is not looked at again. -/
def substitute (es : List (String × List Char)) (s : List Char) : List Char :=
  match s with
  | [] => []
  | c :: rest =>
    match es.find? fun e => (placeholder e.1).isPrefixOf (c :: rest) with
    | some e => e.2 ++ substitute es (rest.drop ((placeholder e.1).length - 1))
    | none => c :: substitute es rest
termination_by s.length
decreasing_by
  · simp only [List.length_drop, List.length_cons]
    omega
  · simp

/-- What a text in braces gives way to: the text of the argument of this name, if there is one. -/
def argumentOf (es : List (String × List Char)) (body : List Char) : List Char :=
  match es.find? fun e => e.1.toList = body with
  | some e => e.2
  | none => braced body

variable {es : List (String × List Char)}

theorem substitute_char {c : Char} (hc : c ≠ '{') (s : List Char) :
    substitute es (c :: s) = c :: substitute es s := by
  have hnone : (es.find? fun e => (placeholder e.1).isPrefixOf (c :: s)) = none := by
    rw [List.find?_eq_none]
    intro e _ h
    simp [placeholder, List.isPrefixOf] at h
    exact hc h.1.symm
  rw [substitute, hnone]

theorem substitute_of_notMem {s : List Char} (h : '{' ∉ s) (y : List Char) :
    substitute es (s ++ y) = s ++ substitute es y := by
  induction s with
  | nil => rfl
  | cons c s ih =>
    rw [List.mem_cons, not_or] at h
    rw [List.cons_append, substitute_char (Ne.symm h.1), ih h.2, List.cons_append]

theorem substitute_group {body : List Char} (hnames : ∀ e ∈ es, Plain e.1.toList)
    (hbody : Plain body) (s : List Char) :
    substitute es (braced body ++ s) = argumentOf es body ++ substitute es s := by
  -- on a group only the placeholder with the same body is found
  have hfind : (es.find? fun e => (placeholder e.1).isPrefixOf ('{' :: (body ++ ['}'] ++ s))) =
      es.find? fun e => e.1.toList = body := by
    apply List.find?_congr
    intro e he
    exact isPrefixOf_group (hnames e he) hbody s
  show substitute es ('{' :: (body ++ ['}'] ++ s)) = _
  rw [substitute, hfind]
  unfold argumentOf
  cases hfound : es.find? fun e => e.1.toList = body with
  | some e =>
    have hname : e.1.toList = body := by simpa using List.find?_some hfound
    -- what is dropped behind the opening brace is the body and the closing one
    have hlength : (placeholder e.1).length - 1 = (body ++ ['}']).length := by
      rw [← hname]
      rfl
    dsimp only
    rw [hlength, List.drop_left]
  | none =>
    have hfree : '{' ∉ body ++ ['}'] := by
      simpa using hbody.1
    dsimp only
    rw [substitute_of_notMem hfree]
    rfl

/-! ## All arguments -/

/-- A text with some arguments put in one after another. -/
def fillWith (es : List (String × List Char)) (s : List Char) : List Char :=
  es.foldl (fun s e => replaceAll (placeholder e.1) e.2 s) s

/-- The arguments with their own texts filled in by the arguments after them. -/
def completed : List (String × List Char) → List (String × List Char)
  | [] => []
  | (name, text) :: later => (name, fillWith later text) :: completed later

/-- Arguments whose names and texts can be put in piece by piece. -/
def PairedTexts (es : List (String × List Char)) : Prop :=
  ∀ e ∈ es, Plain e.1.toList ∧ Paired e.2

theorem fillWith_append (hes : PairedTexts es) {x : List Char} (hx : Paired x) (y : List Char) :
    fillWith es (x ++ y) = fillWith es x ++ fillWith es y := by
  -- by induction on the arguments, each of which is put into both parts
  induction es generalizing x y with
  | nil => rfl
  | cons e later ih =>
    obtain ⟨hname, htext⟩ := hes e List.mem_cons_self
    have hlater : PairedTexts later := fun e he => hes e (List.mem_cons_of_mem _ he)
    unfold fillWith
    rw [List.foldl_cons, hx.replaceAll_append hname]
    exact ih hlater (hx.replaceAll hname htext) _

theorem fillWith_char {c : Char} (hc : c ≠ '{') (s : List Char) :
    fillWith es (c :: s) = c :: fillWith es s := by
  induction es generalizing s with
  | nil => rfl
  | cons e later ih =>
    unfold fillWith
    rw [List.foldl_cons, replaceAll_char hc]
    exact ih _

theorem fillWith_nil : fillWith es [] = [] := by
  induction es with
  | nil => rfl
  | cons e later ih =>
    unfold fillWith
    rw [List.foldl_cons, replaceAll_nil]
    exact ih

/-- Filling in puts in the text of an argument and goes on with the arguments after it. -/
theorem fillWith_group (hes : PairedTexts es) {body : List Char} (hbody : Plain body)
    (s : List Char) :
    fillWith es (braced body ++ s) = argumentOf (completed es) body ++ fillWith es s := by
  induction es generalizing s with
  | nil => rfl
  | cons e later ih =>
    obtain ⟨hname, htext⟩ := hes e List.mem_cons_self
    have hlater : PairedTexts later := fun e he => hes e (List.mem_cons_of_mem _ he)
    have hstep : ∀ x, fillWith (e :: later) x =
        fillWith later (replaceAll (placeholder e.1) e.2 x) := fun _ => rfl
    rw [hstep, hstep, replaceAll_group hname hbody]
    -- the first placeholder that matches puts in its text; later arguments see this text
    by_cases heq : e.1.toList = body
    · rw [if_pos heq, fillWith_append hlater htext]
      congr 1
      unfold argumentOf completed
      rw [List.find?_cons_of_pos (by simpa using heq)]
    · rw [if_neg heq, ih hlater]
      congr 1
      conv_rhs => unfold argumentOf completed
      rw [List.find?_cons_of_neg (by simpa using heq)]
      rfl

theorem keys_completed (es : List (String × List Char)) :
    (completed es).map Prod.fst = es.map Prod.fst := by
  induction es with
  | nil => rfl
  | cons e later ih =>
    unfold completed
    rw [List.map_cons, List.map_cons, ih]

/-- **Run**: filling in a paired text is one pass over it, with arguments that have been filled in
    themselves. -/
theorem fillWith_eq_substitute (hes : PairedTexts es) {s : List Char} (hs : Paired s) :
    fillWith es s = substitute (completed es) s := by
  have hnames : ∀ e ∈ completed es, Plain e.1.toList := by
    intro e he
    have hkey : e.1 ∈ es.map Prod.fst := by
      rw [← keys_completed]
      exact List.mem_map_of_mem he
    obtain ⟨e', he', hkey'⟩ := List.mem_map.mp hkey
    rw [← hkey']
    exact (hes e' he').1
  -- by induction on the template, where only a group takes an argument
  induction hs with
  | nil => rw [fillWith_nil, substitute]
  | char hc _ ih => rw [fillWith_char hc, substitute_char hc, ih]
  | group hbody _ ih => rw [fillWith_group hes hbody, substitute_group hnames hbody, ih]

/-! ## Texts that are not looked at again -/

/-- What a text without opening braces was before, it still is. -/
theorem fillWith_of_notMem {s : List Char} (h : '{' ∉ s) : fillWith es s = s := by
  induction es generalizing s with
  | nil => rfl
  | cons e later ih =>
    have hstep : replaceAll (placeholder e.1) e.2 (s ++ []) = _ := replaceAll_of_notMem h []
    rw [List.append_nil, replaceAll_nil, List.append_nil] at hstep
    unfold fillWith
    rw [List.foldl_cons, hstep]
    exact ih h

theorem completed_of_notMem (h : ∀ e ∈ es, '{' ∉ e.2) : completed es = es := by
  induction es with
  | nil => rfl
  | cons e later ih =>
    unfold completed
    rw [fillWith_of_notMem (h e List.mem_cons_self),
      ih fun e he => h e (List.mem_cons_of_mem _ he)]

/-- Of items under different keys each is found under its own. -/
theorem find?_of_mem {α κ : Type} [DecidableEq κ] {f : α → κ} {l : List α} {a : α}
    (hnodup : (l.map f).Nodup) (ha : a ∈ l) : l.find? (fun b => f b = f a) = some a := by
  have hsome : (l.find? fun b => f b = f a).isSome = true := by
    rw [List.find?_isSome]
    exact ⟨a, ha, by simp⟩
  obtain ⟨b, hfound⟩ := Option.isSome_iff_exists.mp hsome
  have hkey : f b = f a := by simpa using List.find?_some hfound
  rw [hfound, List.inj_on_of_nodup_map hnodup (List.mem_of_find?_eq_some hfound) ha hkey]

/-- Items under different keys are found in whatever order they stand. -/
theorem find?_perm {α κ : Type} [DecidableEq κ] {f : α → κ} {l l' : List α} (hperm : l'.Perm l)
    (hnodup : (l.map f).Nodup) (k : κ) :
    l'.find? (fun b => f b = k) = l.find? (fun b => f b = k) := by
  by_cases hk : ∃ a ∈ l, f a = k
  · obtain ⟨a, ha, rfl⟩ := hk
    have hnodup' : (l'.map f).Nodup := (hperm.map _).nodup_iff.mpr hnodup
    rw [find?_of_mem hnodup ha, find?_of_mem hnodup' (hperm.mem_iff.mpr ha)]
  · -- a key that is in none of the lists is found in neither
    have hnone : ∀ {m : List α}, (∀ a ∈ m, a ∈ l) → m.find? (fun b => f b = k) = none := by
      intro m hm
      rw [List.find?_eq_none]
      intro a ha
      simpa using fun hkey => hk ⟨a, hm a ha, hkey⟩
    rw [hnone fun a ha => hperm.mem_iff.mp ha, hnone fun a ha => ha]

/-- Different names are different as texts. -/
theorem nodup_toList (hnodup : (es.map Prod.fst).Nodup) : (es.map fun e => e.1.toList).Nodup := by
  have hmap := hnodup.map (f := String.toList) fun a b h => String.toList_inj.mp h
  rwa [List.map_map] at hmap

theorem argumentOf_of_mem {e : String × List Char} (hnodup : (es.map Prod.fst).Nodup)
    (he : e ∈ es) : argumentOf es e.1.toList = e.2 := by
  unfold argumentOf
  rw [find?_of_mem (nodup_toList hnodup) he]

/-- The order of the arguments does not matter where all are put in at once. -/
theorem substitute_perm {es' : List (String × List Char)} (hperm : es'.Perm es)
    (hnodup : (es.map Prod.fst).Nodup) (hnames : ∀ e ∈ es, Plain e.1.toList) {s : List Char}
    (hs : Paired s) : substitute es' s = substitute es s := by
  have hargument : ∀ body, argumentOf es' body = argumentOf es body := by
    intro body
    unfold argumentOf
    rw [find?_perm hperm (nodup_toList hnodup)]
  induction hs with
  | nil => rw [substitute, substitute]
  | char hc _ ih => rw [substitute_char hc, substitute_char hc, ih]
  | group hbody _ ih =>
    rw [substitute_group hnames hbody,
      substitute_group (fun e he => hnames e (hperm.mem_iff.mp he)) hbody, hargument, ih]

/-- Two lists with the same names are equal if all entries of the one are among the other. -/
theorem eq_of_keys_eq {es' : List (String × List Char)}
    (hkeys : es'.map Prod.fst = es.map Prod.fst) (hnodup : (es.map Prod.fst).Nodup)
    (hmem : ∀ e ∈ es', e ∈ es) : es' = es := by
  have hlength : es'.length = es.length := by simpa using congrArg List.length hkeys
  apply List.ext_getElem hlength
  intro i hi' hi
  apply List.inj_on_of_nodup_map hnodup (hmem _ (List.getElem_mem hi')) (List.getElem_mem hi)
  have hkey : (es'.map Prod.fst)[i]? = (es.map Prod.fst)[i]? := by rw [hkeys]
  simpa [hi, hi'] using hkey

/-- The arguments are put in at once exactly if none of their texts is changed by the arguments
    after it. -/
theorem simultaneous_iff (hes : PairedTexts es) (hnodup : (es.map Prod.fst).Nodup) :
    (∀ s, Paired s → fillWith es s = substitute es s) ↔ completed es = es := by
  constructor
  · intro h
    have hkeys := keys_completed es
    apply eq_of_keys_eq hkeys hnodup
    intro e he
    have hkey : e.1 ∈ es.map Prod.fst := by
      rw [← hkeys]
      exact List.mem_map_of_mem he
    obtain ⟨e', he', hname⟩ := List.mem_map.mp hkey
    -- the placeholder of the argument alone shows its text
    have hplain := (hes e' he').1
    have hsame := h _ (Paired.group hplain .nil)
    rw [fillWith_group hes hplain, substitute_group (fun e he => (hes e he).1) hplain, fillWith_nil,
      substitute, List.append_nil, List.append_nil, argumentOf_of_mem hnodup he', hname,
      argumentOf_of_mem (hkeys ▸ hnodup) he] at hsame
    have heq : e = e' := Prod.ext hname.symm hsame
    rw [heq]
    exact he'
  · intro h s hs
    rw [fillWith_eq_substitute hes hs, h]

/-! ## Resolved arguments -/

/-- The texts of some arguments, under their names. -/
def texts (arguments : Arguments) : List (String × List Char) :=
  arguments.entries.map fun e => (e.1, e.2.toChars)

theorem fillIn_eq_fillWith (template : List Char) (arguments : Arguments) :
    fillIn template arguments = fillWith (texts arguments) template := by
  unfold fillIn fillWith texts
  rw [List.foldl_map]

theorem nodup_texts (arguments : Arguments) : ((texts arguments).map Prod.fst).Nodup := by
  unfold texts
  rw [List.map_map]
  exact arguments.nodup

variable {p : Preset} {declared : List String} {overrides : List (String × String)}
  {a a' b arguments : Arguments} {item : String × String}

/-- An override writes the value of a parameter. -/
theorem override_ok (h : p.override declared a item = .ok b) :
    ∃ parameter value, p.parameters.find? (·.name = item.1) = some parameter ∧
      overrideValue parameter declared item.2 = .ok value ∧ b = a.insert item.1 value := by
  unfold Preset.override at h
  split at h
  · cases h
  · next parameter hparameter =>
    split at h
    · next value hvalue =>
      cases h
      exact ⟨parameter, value, hparameter, hvalue, rfl⟩
    · cases h

theorem entries_defaults (hnodup : (p.parameters.map (·.name)).Nodup) :
    p.defaults.entries = p.parameters.map fun q => (q.name, q.default) := by
  unfold Preset.defaults
  apply Table.entries_ofList
  rw [List.map_map]
  exact hnodup

theorem keys_defaults (hnodup : (p.parameters.map (·.name)).Nodup) :
    p.defaults.keys = p.parameters.map (·.name) := by
  unfold Table.keys
  rw [entries_defaults hnodup, List.map_map]
  rfl

/-- The argument of a parameter is its default at first. -/
theorem get?_defaults {parameter : Parameter}
    (hnodup : (p.parameters.map (·.name)).Nodup) (hparameter : parameter ∈ p.parameters) :
    p.defaults.get? parameter.name = some parameter.default := by
  rw [Table.get?_eq_some_iff, entries_defaults hnodup]
  exact List.mem_map_of_mem (f := fun q : Parameter => (q.name, q.default)) hparameter

/-- An override is for a parameter that there is. -/
theorem mem_keys_of_override (hkeys : a.keys = p.parameters.map (·.name))
    (h : p.override declared a item = .ok b) : item.1 ∈ a.keys := by
  obtain ⟨parameter, _, hfound, _, _⟩ := override_ok h
  have hname : parameter.name = item.1 := by simpa using List.find?_some hfound
  rw [hkeys, ← hname]
  exact List.mem_map_of_mem (List.mem_of_find?_eq_some hfound)

theorem keys_override (hkeys : a.keys = p.parameters.map (·.name))
    (h : p.override declared a item = .ok b) : b.keys = p.parameters.map (·.name) := by
  have hmem := mem_keys_of_override hkeys h
  obtain ⟨_, value, _, _, rfl⟩ := override_ok h
  rw [Table.keys_insert_of_mem a hmem, hkeys]

/-- There is an argument for each parameter, in the order in which they are declared. -/
theorem keys_resolve (hnodup : (p.parameters.map (·.name)).Nodup)
    (h : p.resolve overrides declared = .ok arguments) :
    arguments.keys = p.parameters.map (·.name) :=
  foldlM_ok (P := fun a : Arguments => a.keys = p.parameters.map (·.name))
    (fun _ _ _ hkeys hstep => keys_override hkeys hstep) (keys_defaults hnodup) h

/-- **Step**: an override does the same in whatever order the parameters are declared. -/
theorem override_perm {other : Preset} (hperm : other.parameters.Perm p.parameters)
    (hnodup : (p.parameters.map (·.name)).Nodup) (hkeys : a.keys = p.parameters.map (·.name))
    (hentries : a'.entries.Perm a.entries) (h : p.override declared a item = .ok b) :
    ∃ b', other.override declared a' item = .ok b' ∧ b'.entries.Perm b.entries := by
  have hmem := mem_keys_of_override hkeys h
  obtain ⟨parameter, value, hfound, hvalue, rfl⟩ := override_ok h
  refine ⟨a'.insert item.1 value, ?_, ?_⟩
  · unfold Preset.override
    rw [find?_perm hperm hnodup, hfound]
    dsimp only
    rw [hvalue]
  · have hmem' : item.1 ∈ a'.entries.map Prod.fst := (hentries.map _).mem_iff.mpr hmem
    show (Table.put item.1 value a'.entries).Perm (Table.put item.1 value a.entries)
    rw [Table.put_eq_map a.nodup hmem, Table.put_eq_map a'.nodup hmem']
    exact hentries.map _

/-- **Run**: the order in which the parameters are declared is that of the arguments, and shows in
    nothing else. -/
theorem resolve_perm {other : Preset} (hperm : other.parameters.Perm p.parameters)
    (hnodup : (p.parameters.map (·.name)).Nodup)
    (h : p.resolve overrides declared = .ok arguments) :
    ∃ arguments', other.resolve overrides declared = .ok arguments' ∧
      arguments'.entries.Perm arguments.entries := by
  have hnodup' : (other.parameters.map (·.name)).Nodup := (hperm.map _).nodup_iff.mpr hnodup
  have hdefaults : other.defaults.entries.Perm p.defaults.entries := by
    rw [entries_defaults hnodup, entries_defaults hnodup']
    exact hperm.map _
  have hkeys := keys_defaults hnodup
  unfold Preset.resolve at h ⊢
  -- the induction is over the overrides, for any two tables with the same entries
  generalize p.defaults = a at h hkeys hdefaults
  generalize other.defaults = a' at hdefaults ⊢
  induction overrides generalizing a a' with
  | nil =>
    cases h
    exact ⟨a', rfl, hdefaults⟩
  | cons item rest ih =>
    rw [List.foldlM_cons] at h
    obtain ⟨b, hb, hrest⟩ := bind_ok.mp h
    obtain ⟨b', hb', hentries⟩ := override_perm hperm hnodup hkeys hdefaults hb
    obtain ⟨arguments', hresult, hfinal⟩ := ih b hrest (keys_override hkeys hb) b' hentries
    refine ⟨arguments', ?_, hfinal⟩
    rw [List.foldlM_cons]
    exact bind_ok.mpr ⟨b', hb', hresult⟩

/-! ## Result -/

/-- The texts of arguments are paired if those of the values are, since a parameter stands behind
    each of them. -/
theorem pairedTexts_texts (hkeys : arguments.keys = p.parameters.map (·.name))
    (hnames : ∀ parameter ∈ p.parameters, Plain parameter.name.toList)
    (htexts : ∀ e ∈ arguments.entries, Paired e.2.toChars) : PairedTexts (texts arguments) := by
  intro e he
  obtain ⟨entry, hentry, rfl⟩ := List.mem_map.mp he
  have hname : entry.1 ∈ p.parameters.map (·.name) := hkeys ▸ List.mem_map_of_mem hentry
  obtain ⟨parameter, hparameter, hname⟩ := List.mem_map.mp hname
  refine ⟨?_, htexts entry hentry⟩
  rw [← hname]
  exact hnames parameter hparameter

/-- A template is filled in with the texts of the arguments, one after another. -/
theorem render_template {template : String} (hbody : p.body = .template template)
    (hresolve : p.resolve overrides declared = .ok arguments) :
    p.render overrides declared = .ok (fillWith (texts arguments) template.toList) := by
  rw [← fillIn_eq_fillWith]
  exact bind_ok.mpr ⟨arguments, hresolve, by rw [hbody]; rfl⟩

/-- **Templates**: in a paired template each placeholder gives way to the text of its argument,
    filled in with the arguments declared later. -/
theorem render_of_paired {template : String} (hbody : p.body = .template template)
    (hnodup : (p.parameters.map (·.name)).Nodup)
    (hnames : ∀ parameter ∈ p.parameters, Plain parameter.name.toList)
    (hresolve : p.resolve overrides declared = .ok arguments)
    (htemplate : Paired template.toList)
    (htexts : ∀ e ∈ arguments.entries, Paired e.2.toChars) :
    arguments.keys = p.parameters.map (·.name) ∧
      p.render overrides declared =
        .ok (substitute (completed (texts arguments)) template.toList) ∧
      ((∀ s, Paired s → fillIn s arguments = substitute (texts arguments) s) ↔
        completed (texts arguments) = texts arguments) ∧
      ((∀ e ∈ arguments.entries, '{' ∉ e.2.toChars) →
        p.render overrides declared = .ok (substitute (texts arguments) template.toList) ∧
        ∀ other : Preset, other.body = p.body → other.parameters.Perm p.parameters →
          other.render overrides declared = p.render overrides declared) := by
  have hkeys := keys_resolve hnodup hresolve
  have hnodupTexts := nodup_texts arguments
  have hpaired := pairedTexts_texts hkeys hnames htexts
  have hrender := render_template hbody hresolve
  refine ⟨hkeys, ?_, ?_, ?_⟩
  · rw [hrender, fillWith_eq_substitute hpaired htemplate]
  · simp only [fillIn_eq_fillWith]
    exact simultaneous_iff hpaired hnodupTexts
  · intro hfree
    -- without a brace in any argument nothing that is put in is replaced again
    have hfreeTexts : ∀ e ∈ texts arguments, '{' ∉ e.2 := List.forall_mem_map.mpr hfree
    have honce : p.render overrides declared =
        .ok (substitute (texts arguments) template.toList) := by
      rw [hrender, fillWith_eq_substitute hpaired htemplate, completed_of_notMem hfreeTexts]
    refine ⟨honce, ?_⟩
    intro other hother hperm
    obtain ⟨arguments', hresolve', hentries⟩ := resolve_perm hperm hnodup hresolve
    -- the same texts in another order, and in any order they are put in at once
    have htextsPerm : (texts arguments').Perm (texts arguments) := hentries.map _
    have hpaired' : PairedTexts (texts arguments') := fun e he =>
      hpaired e (htextsPerm.mem_iff.mp he)
    have hfreeTexts' : ∀ e ∈ texts arguments', '{' ∉ e.2 := fun e he =>
      hfreeTexts e (htextsPerm.mem_iff.mp he)
    rw [honce, render_template (hother.trans hbody) hresolve',
      fillWith_eq_substitute hpaired' htemplate, completed_of_notMem hfreeTexts',
      substitute_perm htextsPerm hnodupTexts (fun e he => (hpaired e he).1) htemplate]

/-- A preset that plays its first parameter and has a second one. -/
def echoing : Preset :=
  ⟨"echoing", [⟨"first", .text "x", []⟩, ⟨"second", .text "y", []⟩],
    .template "\x7bfirst\x7d"⟩

/-- The placeholder of the second parameter, given for the first. -/
def echoed : List (String × String) := [("first", "\x7bsecond\x7d")]

theorem render_echoing : ∃ arguments, echoing.resolve echoed [] = .ok arguments ∧
    texts arguments = [("first", placeholder "second"), ("second", ['y'])] ∧
    echoing.render echoed [] = .ok ['y'] := by
  have hresolve : (echoing.resolve echoed []).map texts =
      .ok [("first", placeholder "second"), ("second", ['y'])] := by
    decide +kernel
  have hrender : echoing.render echoed [] = .ok ['y'] := by
    decide +kernel
  obtain ⟨arguments, harguments, htexts⟩ := map_ok.mp hresolve
  exact ⟨arguments, harguments, htexts, hrender⟩

/-- The placeholder that comes in with the text of the first argument gives way to the text of the
    second one, so the two are not put in at once. -/
theorem echoing_render_of_paired : ∃ arguments, echoing.resolve echoed [] = .ok arguments ∧
    (echoing.parameters.map (·.name)).Nodup ∧
    (∀ parameter ∈ echoing.parameters, Plain parameter.name.toList) ∧
    Paired "\x7bfirst\x7d".toList ∧ (∀ e ∈ arguments.entries, Paired e.2.toChars) ∧
    echoing.render echoed [] = .ok (substitute (completed (texts arguments))
      "\x7bfirst\x7d".toList) ∧
    completed (texts arguments) = [("first", ['y']), ("second", ['y'])] ∧
    ¬ ∀ s, Paired s → fillIn s arguments = substitute (texts arguments) s := by
  obtain ⟨arguments, hresolve, htexts, _⟩ := render_echoing
  have hnodup : (echoing.parameters.map (·.name)).Nodup := by decide
  have hnames : ∀ parameter ∈ echoing.parameters, Plain parameter.name.toList := by decide
  have hfirst : Plain "first".toList := by decide
  have hsecond : Plain "second".toList := by decide
  have htemplate : Paired "\x7bfirst\x7d".toList := Paired.braced hfirst
  have hpaired : ∀ e ∈ arguments.entries, Paired e.2.toChars := by
    intro e he
    have htext : (e.1, e.2.toChars) ∈ texts arguments := List.mem_map_of_mem he
    rw [htexts] at htext
    obtain heq | heq : (e.1, e.2.toChars) = ("first", placeholder "second") ∨
        (e.1, e.2.toChars) = ("second", ['y']) := by simpa using htext
    · rw [(Prod.mk.inj heq).2]
      exact Paired.braced hsecond
    · rw [(Prod.mk.inj heq).2]
      exact Paired.of_notMem (by decide)
  -- one argument is the placeholder of the other, so the two ways of filling in differ
  obtain ⟨_, hrender, hsimultaneous, _⟩ :=
    render_of_paired (p := echoing) rfl hnodup hnames hresolve htemplate hpaired
  have hcompleted : completed (texts arguments) = [("first", ['y']), ("second", ['y'])] := by
    rw [htexts]
    decide +kernel
  refine ⟨arguments, hresolve, hnodup, hnames, htemplate, hpaired, hrender, hcompleted, ?_⟩
  rw [hsimultaneous, hcompleted, htexts]
  decide

/-- The same preset with its parameters declared the other way round. -/
def echoingReversed : Preset := { echoing with parameters := echoing.parameters.reverse }

/-- Filling in is not a single pass over the template, and the order in which the parameters are
    declared shows in the text. -/
theorem echoing_render_ne_substitute :
    (echoing.parameters.map (·.name)).Nodup ∧
    (∃ arguments, echoing.resolve echoed [] = .ok arguments ∧
      echoing.render echoed [] ≠ .ok (substitute (texts arguments) "\x7bfirst\x7d".toList)) ∧
    echoingReversed.render echoed [] ≠ echoing.render echoed [] := by
  obtain ⟨arguments, hresolve, htexts, hrender⟩ := render_echoing
  have honce : substitute (texts arguments) "\x7bfirst\x7d".toList = placeholder "second" := by
    rw [htexts]
    decide +kernel
  have hreversed : echoingReversed.render echoed [] = .ok (placeholder "second") := by
    decide +kernel
  refine ⟨by decide, ⟨arguments, hresolve, ?_⟩, ?_⟩
  · rw [hrender, honce]
    decide
  · rw [hreversed, hrender]
    decide

end PulseTrain.Preset
