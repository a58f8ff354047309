import FlowTree.Proofs.Markup.Splitting

/-!
# Values that are not escaped

A value that is given word for word and has a mark in it ends too early, or is read as another one.  Whatever
comes after it, the reader cannot make up for this: what has been read of a tag stays.

* **`Splitter.State.Foretells`** says which pieces are still possible when some have been read;
  **`Splitter.foretells_of_read`** says that the pieces that are found in the end are.
* **`Splitter.exists_value_of_read`** says what is read of a value, whatever it is.
* **`Splitter.legible_of_read`** says that the values of a part can be read if they are read as they were,
  **`Markup.legible_iff`** says so of a document.
-/

namespace FlowTree

namespace Splitter

open Markup

/-! ### What has been read stays -/

/-- The attributes that have been read of a tag whose name is over. -/
def Mode.attributes? : Mode → Option (List (String × String))
  | text _ => none
  | bracket => none
  | closing _ => none
  | opening _ => none
  | inside _ attributes => some attributes
  | key _ attributes _ => some attributes
  | equals _ attributes _ => some attributes
  | value _ attributes _ _ => some attributes
  | slash _ attributes => some attributes

/-- The pieces begin with these, and the next one has these attributes before others. -/
def Continues (pieces : List Piece) (attributes : List (String × String)) (ps : List Piece) : Prop :=
  ∃ p more, ps = pieces ++ p :: more ∧ attributes <+: p.attributes

/-- The pieces begin with those that have been read, and if the reader stands in a tag, the next one has the
attributes that have been read. -/
def State.Foretells (s : State) (ps : List Piece) : Prop :=
  match s.mode.attributes? with
  | none => s.pieces <+: ps
  | some attributes => Continues s.pieces attributes ps

theorem Continues.initial {pieces ps : List Piece} {attributes : List (String × String)}
    (h : Continues pieces attributes ps) : pieces <+: ps := by
  obtain ⟨p, more, rfl, -⟩ := h
  exact List.prefix_append _ _

theorem Continues.of_append {pieces ps : List Piece} {attributes added : List (String × String)}
    (h : Continues pieces (attributes ++ added) ps) : Continues pieces attributes ps := by
  obtain ⟨p, more, heq, hattributes⟩ := h
  exact ⟨p, more, heq, (List.prefix_append _ _).trans hattributes⟩

theorem Continues.of_prefix {pieces ps : List Piece} {p : Piece} (h : pieces ++ [p] <+: ps) :
    Continues pieces p.attributes ps := by
  obtain ⟨more, rfl⟩ := h
  exact ⟨p, more, by rw [List.append_assoc]; rfl, List.prefix_rfl⟩

theorem continues_of_goOn {pieces ps : List Piece} {name : List Char} {attributes : List (String × String)}
    {c : Char} {s : State} (hstep : goOn? pieces name attributes c = some s) (h : s.Foretells ps) :
    Continues pieces attributes ps := by
  unfold goOn? at hstep
  split at hstep
  · cases hstep
    exact h
  · split at hstep
    · cases hstep
      exact h
    · split at hstep
      · cases hstep
        exact Continues.of_prefix h
      · cases hstep

/-- **One character** takes nothing back. -/
theorem foretells_of_step {s s' : State} {c : Char} {ps : List Piece} (hstep : step? s c = some s')
    (h : s'.Foretells ps) : s.Foretells ps := by
  obtain ⟨pieces, mode⟩ := s
  cases mode with
  | text read =>
    simp only [step?] at hstep
    split at hstep
    · obtain ⟨t, -, rfl⟩ := Option.map_eq_some_iff.mp hstep
      exact (List.prefix_append _ _).trans h
    · cases hstep
      exact h
  | bracket =>
    simp only [step?] at hstep
    split at hstep
    · cases hstep
      exact h
    · split at hstep
      · cases hstep
        exact h
      · cases hstep
  | closing name =>
    simp only [step?] at hstep
    split at hstep
    · cases hstep
      exact h
    · split at hstep
      · cases hstep
        exact (List.prefix_append _ _).trans h
      · cases hstep
  | opening name =>
    simp only [step?] at hstep
    split at hstep
    · cases hstep
      exact h
    · exact (continues_of_goOn hstep h).initial
  | inside name attributes => exact continues_of_goOn hstep h
  | key name attributes read =>
    simp only [step?] at hstep
    split at hstep
    · cases hstep
      exact h
    · split at hstep
      · cases hstep
        exact h
      · cases hstep
  | equals name attributes key =>
    simp only [step?] at hstep
    split at hstep
    · cases hstep
      exact h
    · cases hstep
  | value name attributes key read =>
    simp only [step?] at hstep
    split at hstep
    · obtain ⟨v, -, rfl⟩ := Option.map_eq_some_iff.mp hstep
      exact Continues.of_append h
    · split at hstep
      · cases hstep
      · cases hstep
        exact h
  | slash name attributes =>
    simp only [step?] at hstep
    split at hstep
    · cases hstep
      exact Continues.of_prefix h
    · cases hstep

/-- The pieces that are found from here to the end of a document. -/
def read? (s : State) (cs : List Char) : Option (List Piece) := (run? s cs).bind finish?

theorem read_cons (s : State) (c : Char) (cs : List Char) :
    read? s (c :: cs) = (step? s c).bind (read? · cs) := by
  rw [read?, run_cons, Option.bind_assoc]
  rfl

/-- **What has been read stays.** -/
theorem foretells_of_read {s : State} {cs : List Char} {ps : List Piece} (h : read? s cs = some ps) :
    s.Foretells ps := by
  induction cs generalizing s with
  | nil =>
    obtain ⟨pieces, mode⟩ := s
    cases mode with
    | text read =>
      obtain ⟨t, -, rfl⟩ := Option.map_eq_some_iff.mp h
      exact List.prefix_append _ _
    | _ => cases h
  | cons c cs ih =>
    rw [read_cons, Option.bind_eq_some_iff] at h
    obtain ⟨s', hstep, hrest⟩ := h
    exact foretells_of_step hstep (ih hrest)

/-! ### Values as they are read -/

/-- **What is read of a value**: the entities are undone in its beginning up to the first quotation mark in it, if
there is one. -/
theorem exists_value_of_read {pieces ps : List Piece} {name key read cs rest : List Char}
    {attributes : List (String × String)}
    (h : read? ⟨pieces, .value name attributes key read⟩ (cs ++ '"' :: rest) = some ps) :
    ∃ taken v, taken <+: cs ∧ (∀ c ∈ taken, c ≠ '"' ∧ c ≠ '<') ∧ Xml.unescape (read ++ taken) = some v ∧
      Continues pieces (attributes ++ [(String.ofList key, String.ofList v)]) ps := by
  -- where the value ends, its entities are undone
  have hend {read tail : List Char}
      (h : read? ⟨pieces, .value name attributes key read⟩ ('"' :: tail) = some ps) :
      ∃ v, Xml.unescape read = some v ∧
        Continues pieces (attributes ++ [(String.ofList key, String.ofList v)]) ps := by
    rw [read_cons, Option.bind_eq_some_iff] at h
    obtain ⟨s, hstep, hrest⟩ := h
    obtain ⟨v, hv, rfl⟩ := Option.map_eq_some_iff.mp hstep
    exact ⟨v, hv, foretells_of_read hrest⟩
  induction cs generalizing read with
  | nil =>
    obtain ⟨v, hv, hcontinues⟩ := hend h
    exact ⟨[], v, List.prefix_rfl, List.forall_mem_nil _, by rwa [List.append_nil], hcontinues⟩
  | cons c cs ih =>
    by_cases hquote : c = '"'
    · subst hquote
      obtain ⟨v, hv, hcontinues⟩ := hend h
      exact ⟨[], v, List.nil_prefix, List.forall_mem_nil _, by rwa [List.append_nil], hcontinues⟩
    · rw [List.cons_append, read_cons, Option.bind_eq_some_iff] at h
      obtain ⟨s, hstep, hrest⟩ := h
      simp only [step?, hquote, if_false] at hstep
      split at hstep
      · cases hstep
      · next hbracket =>
        cases hstep
        obtain ⟨taken, v, hprefix, hchars, hv, hcontinues⟩ := ih hrest
        refine ⟨c :: taken, v, (List.prefix_cons_inj c).mpr hprefix,
          List.forall_mem_cons.mpr ⟨⟨hquote, hbracket⟩, hchars⟩, ?_, hcontinues⟩
        rwa [List.append_assoc] at hv

/-- A value that is read as it was can be read: it has not ended too early, and no entity was in it. -/
theorem exists_content_of_read {pieces ps : List Piece} {name : List Char} {attributes : List (String × String)}
    {key : String} {v : AttributeValue} {rest : List Char}
    (h : read? ⟨pieces, .value name attributes key.toList []⟩ (v.render.toList ++ '"' :: rest) = some ps) :
    ∃ content, Continues pieces (attributes ++ [(key, content)]) ps ∧ (content = v.content → v.Legible) := by
  obtain ⟨taken, w, hprefix, hchars, hw, hcontinues⟩ := exists_value_of_read h
  rw [String.ofList_toList] at hcontinues
  refine ⟨_, hcontinues, fun hcontent => ?_⟩
  cases v with
  | text s => exact AttributeValue.Clean.legible trivial
  | verbatim s =>
    obtain rfl : w = s.toList := by rw [← String.toList_ofList (l := w), hcontent]; rfl
    have hall : taken = s.toList :=
      hprefix.eq_of_length (le_antisymm hprefix.length_le (Xml.length_of_unescapeFrom hw))
    rw [hall] at hchars hw
    exact ⟨hw, hchars⟩

/-! ### Parts as they are read -/

/-- After the same attributes, the values of a key are compared. -/
theorem eq_of_values_eq {keys : List String} {p q : Piece} {attributes xs ys : List (String × String)}
    {key u v : String} (hmem : key ∈ keys) (hp : p.attributes = attributes ++ (key, u) :: xs)
    (hq : q.attributes = attributes ++ (key, v) :: ys) (h : p.values keys = q.values keys) : u = v := by
  have hkey : keys.contains key = true := List.contains_iff_mem.mpr hmem
  simp only [Piece.values, hp, hq, List.filter_append, List.filter_cons, hkey, if_true, List.map_append,
    List.map_cons] at h
  exact (List.cons.inj (List.append_cancel_left h)).1

theorem legible_attributes_of_read {keys : List String} {pieces ps : List Piece} {name : List Char}
    {attributes : List (String × String)} {added : MarkupAttributes} {rest : List Char} {q : Piece}
    (h : added.Formed fun a => a.1 ∉ keys → a.2.Legible)
    (hread : read? ⟨pieces, .inside name attributes⟩ (added.chars ++ rest) = some ps)
    (hq : q.attributes = attributes ++ added.content)
    (hvalues : ∀ p more, ps = pieces ++ p :: more → p.values keys = q.values keys) :
    added.Formed fun a => a.2.Legible := by
  induction added generalizing attributes with
  | nil => exact MarkupAttributes.formed_nil
  | cons a added ih =>
    obtain ⟨⟨hkey, hvalue⟩, hadded⟩ := List.forall_mem_cons.mp h
    rw [read?, run_attribute pieces name attributes hkey a.2 added rest] at hread
    have hlegible : a.2.Legible := by
      by_cases hmem : a.1 ∈ keys
      · obtain ⟨content, ⟨p, more, heq, others, hothers⟩, hcontent⟩ := exists_content_of_read hread
        rw [List.append_assoc] at hothers
        exact hcontent (eq_of_values_eq hmem hothers.symm hq (hvalues p more heq))
      · exact hvalue hmem
    rw [run_legible _ _ _ hlegible] at hread
    refine List.forall_mem_cons.mpr ⟨⟨hkey, hlegible⟩, ih hadded hread ?_⟩
    rw [hq, List.append_assoc]
    rfl

/-- The first of some pieces that come after others. -/
theorem values_eq_of_initial {keys : List String} {pieces others ps : List Piece} {q : Piece}
    (h : (pieces ++ q :: others).map (Piece.values keys) <+: ps.map (Piece.values keys)) :
    ∀ p more, ps = pieces ++ p :: more → p.values keys = q.values keys := by
  rintro p more rfl
  rw [List.map_append, List.map_append, List.map_cons, List.map_cons, List.prefix_append_right_inj,
    List.cons_prefix_cons] at h
  exact h.1.symm

/-- Parts one after the other, each of which can be read if it is read as it was. -/
theorem legible_all_of_read {keys : List String} {content : List Markup}
    (h : ∀ m ∈ content, ∀ {pieces ps : List Piece} {rest : List Char},
      read? ⟨pieces, .text []⟩ (m.render.toList ++ rest) = some ps →
        (pieces ++ m.pieces).map (Piece.values keys) <+: ps.map (Piece.values keys) → m.Legible)
    {pieces ps : List Piece} {rest : List Char}
    (hread : read? ⟨pieces, .text []⟩ ((renderAll content).toList ++ rest) = some ps)
    (hvalues : (pieces ++ piecesAll content).map (Piece.values keys) <+: ps.map (Piece.values keys)) :
    ∀ m ∈ content, m.Legible := by
  induction content generalizing pieces with
  | nil => exact List.forall_mem_nil _
  | cons m content ih =>
    rw [renderAll, String.toList_append, List.append_assoc] at hread
    rw [piecesAll, ← List.append_assoc] at hvalues
    have hm : m.Legible :=
      h m List.mem_cons_self hread (((List.prefix_append _ _).map _).trans hvalues)
    rw [read?, run_append, run_render hm, Option.bind_some] at hread
    exact List.forall_mem_cons.mpr ⟨hm, ih (fun m' hm' => h m' (List.mem_cons_of_mem m hm')) hread hvalues⟩

/-- **A part that is read as it was can be read.**  If in what is found from here on the values of some keys are
those of the part, and all its other values can be read, then these can be read as well. -/
theorem legible_of_read {keys : List String} {m : Markup} (h : m.Formed fun a => a.1 ∉ keys → a.2.Legible)
    {pieces ps : List Piece} {rest : List Char}
    (hread : read? ⟨pieces, .text []⟩ (m.render.toList ++ rest) = some ps)
    (hvalues : (pieces ++ m.pieces).map (Piece.values keys) <+: ps.map (Piece.values keys)) : m.Legible := by
  induction h generalizing pieces ps rest with
  | @empty tag added htag hadded =>
    have htext : (Markup.empty tag added).render.toList ++ rest =
        (openTag tag added).toList ++ '/' :: '>' :: rest := by
      simp [render]
    rw [read?, htext, run_tagName pieces htag added rfl] at hread
    exact .empty htag (legible_attributes_of_read hadded hread rfl (values_eq_of_initial hvalues))
  | @leaf tag added s htag hadded =>
    have htext : (element tag added [text s]).render.toList ++ rest =
        (openTag tag added).toList ++ '>' :: ((Xml.escape s).toList ++ (("</" ++ tag ++ ">").toList ++ rest)) := by
      simp [render, renderAll]
    rw [read?, htext, run_tagName pieces htag added rfl] at hread
    exact .leaf s htag (legible_attributes_of_read hadded hread rfl (values_eq_of_initial hvalues))
  | @branch tag added content htag hadded _ ih =>
    have htext : (element tag added content).render.toList ++ rest =
        (openTag tag added).toList ++ '>' :: ((renderAll content).toList ++ (("</" ++ tag ++ ">").toList ++ rest)) := by
      simp [render]
    rw [read?, htext, run_tagName pieces htag added rfl] at hread
    have hlegible := legible_attributes_of_read hadded hread rfl (values_eq_of_initial hvalues)
    refine .branch htag hlegible ?_
    -- the content is read from the end of the tag on
    have hstart : run? ⟨pieces, .inside tag.toList []⟩
        (added.chars ++ '>' :: ((renderAll content).toList ++ (("</" ++ tag ++ ">").toList ++ rest))) =
          run? ⟨pieces ++ [.opening tag added.content], .text []⟩
            ((renderAll content).toList ++ (("</" ++ tag ++ ">").toList ++ rest)) := by
      rw [run_attributes _ _ _ hlegible, run_cons]
      show run? ⟨pieces ++ [.opening (String.ofList tag.toList) added.content], .text []⟩ _ = _
      rw [String.ofList_toList]
    rw [hstart] at hread
    have hpieces : (pieces ++ [Piece.opening tag added.content] ++ piecesAll content) <+:
        pieces ++ (element tag added content).pieces := by
      rw [Markup.pieces, List.append_assoc, List.prefix_append_right_inj]
      exact List.prefix_append _ _
    exact legible_all_of_read (fun m hm => ih m hm) hread ((hpieces.map _).trans hvalues)

end Splitter

/-- **A document is read as it was** if and only if its values can be read; it is enough to look at the values of
those keys that are not known to be legible. -/
theorem Markup.legible_iff {keys : List String} {m : Markup}
    (h : m.Formed fun a => a.1 ∉ keys → a.2.Legible) :
    m.Legible ↔
      ∃ ps, Piece.split? m.render = some ps ∧ ps.map (Piece.values keys) = m.pieces.map (Piece.values keys) := by
  constructor
  · exact fun hlegible => ⟨m.pieces, Piece.split?_of_legible hlegible, rfl⟩
  · rintro ⟨ps, hsplit, hvalues⟩
    rw [Piece.split?, ← List.append_nil m.render.toList] at hsplit
    exact Splitter.legible_of_read h hsplit (hvalues ▸ List.prefix_rfl)

end FlowTree
