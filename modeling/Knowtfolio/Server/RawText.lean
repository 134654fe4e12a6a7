import Knowtfolio.Data.Html
import Knowtfolio.Server.Models

/-!
# What of a document is indexed

The raw text of a document is its title and, on the next line, its content without tags,
of which the text is escaped. So every piece of the title is in the raw text; a piece of
the content, as readers see it, is there whatever comes around it exactly if it survives
being escaped (`rawText_contains_iff`).
-/

namespace Knowtfolio

section

variable [Bluemonday]

/-- The documents that the constructor and the setters make. -/
inductive Document.Made : Document → Prop
  | new (id parentID title content : String) : Made (newDocument id parentID title content)
  | setTitle {d : Document} (title : Option String) : Made d → Made (d.setTitleIfPresent title)
  | setContent {d : Document} (content : Option String) : Made d →
      Made (d.setContentIfPresent content)

/-- Documents are made with their text. -/
theorem Document.Made.coherent {d : Document} (h : d.Made) : d.Coherent := by
  induction h with
  | new => exact coherent_reloadRawText _
  | setTitle title _ ih =>
    cases title with
    | none => exact ih
    | some title => exact coherent_reloadRawText _
  | setContent content _ ih =>
    cases content with
    | none => exact ih
    | some content => exact coherent_reloadRawText _

/-- The piece is in the raw text of every document that has it in its title. -/
def IndexesTitle (s : String) : Prop :=
  ∀ d : Document, d.Made → s.toList <:+: d.title.toList → s.toList <:+: d.rawText.toList

/-- The piece is in the raw text of every document that has it in the text of one of the
    nodes of its content. -/
def IndexesText (textNodes : String → List String) (s : String) : Prop :=
  ∀ d : Document, d.Made → ∀ t ∈ textNodes d.content, s.toList <:+: t.toList →
    s.toList <:+: d.rawText.toList

variable {textNodes : String → List String}

/-- A title is in the text as it is. -/
theorem indexesTitle (s : String) : IndexesTitle s := by
  intro d hd h
  rw [hd.coherent, String.toList_append, String.toList_append, List.append_assoc]
  exact h.trans (List.prefix_append _ _).isInfix

/-- A text that escaping leaves as it is can be found. -/
theorem indexesText_of_survives
    (hstrip : ∀ content, Bluemonday.stripTags content =
      String.ofList ((textNodes content).flatMap fun t => Html.escape t.toList))
    {s : String} (hs : Html.Survives s.toList) : IndexesText textNodes s := by
  intro d hd t ht h
  obtain ⟨u, v, huv⟩ := h
  have hescape : s.toList <:+: Html.escape t.toList := by
    obtain ⟨r, hr⟩ := hs.prefix_escape
    refine ⟨Html.escape u, r ++ Html.escape v, ?_⟩
    rw [← huv, Html.escape_append, Html.escape_append, ← hr]
    simp
  have hmem : Html.escape t.toList ∈ (textNodes d.content).map fun t => Html.escape t.toList :=
    List.mem_map_of_mem ht
  rw [hd.coherent, String.toList_append, hstrip, String.toList_ofList, List.flatMap_def]
  exact (hescape.trans (List.infix_of_mem_flatten hmem)).trans (List.suffix_append _ _).isInfix

/-- Only texts that escaping leaves as they are can be found in every content that shows them. -/
theorem survives_of_indexesText
    (hstrip : ∀ content, Bluemonday.stripTags content =
      String.ofList ((textNodes content).flatMap fun t => Html.escape t.toList))
    (hnode : ∀ s, s ≠ "" → ∃ content, textNodes content = [s]) {s : String}
    (h : IndexesText textNodes s) : Html.Survives s.toList := by
  by_cases hempty : s = ""
  · rw [hempty]
    decide
  -- A document of which the title is empty, and the content is nothing but the piece.
  obtain ⟨content, hcontent⟩ := hnode s hempty
  have hraw := h (newDocument "" "" "" content) (.new _ _ _ _) s (by
    show s ∈ textNodes content
    rw [hcontent]
    exact List.mem_singleton_self s) (List.infix_refl _)
  have htext : (newDocument "" "" "" content).rawText.toList = '\n' :: Html.escape s.toList := by
    show ("" ++ "\n" ++ Bluemonday.stripTags content).toList = _
    rw [hstrip, hcontent]
    simp
  rw [htext] at hraw
  exact Html.survives_of_infix hraw

/-- All of the title is indexed; and of the text of the content, as it is read, what
    survives being escaped. -/
theorem rawText_contains_iff
    (hstrip : ∀ content, Bluemonday.stripTags content =
      String.ofList ((textNodes content).flatMap fun t => Html.escape t.toList))
    (hnode : ∀ s, s ≠ "" → ∃ content, textNodes content = [s]) (s : String) :
    IndexesTitle s ∧ (IndexesText textNodes s ↔ Html.Survives s.toList) :=
  ⟨indexesTitle s, survives_of_indexesText hstrip hnode, indexesText_of_survives hstrip⟩

end

/-! Contents without tags. -/

section

/-- The text of a content without tags. -/
def plainText (content : String) : List String :=
  if content = "" then [] else [String.ofList (Html.unescape content.toList)]

/-- The sanitizer, for contents without tags. -/
@[reducible] def plainBluemonday : Bluemonday where
  stripTags content := String.ofList ((plainText content).flatMap fun t => Html.escape t.toList)
  ugc := id

attribute [local instance] plainBluemonday

/-- Every text is shown by some content. -/
theorem exists_plainText (s : String) (hs : s ≠ "") : ∃ content, plainText content = [s] := by
  have hunescape : String.ofList (Html.unescape (Html.escape s.toList)) = s := by
    rw [Html.unescape_escape, String.ofList_toList]
  refine ⟨String.ofList (Html.escape s.toList), ?_⟩
  rw [plainText, if_neg, String.toList_ofList, hunescape]
  intro hempty
  have hnil : Html.escape s.toList = [] := by
    rw [← String.toList_ofList (l := Html.escape s.toList), hempty]
    rfl
  rw [hnil] at hunescape
  exact hs hunescape.symm

/-- An ampersand in a title is found, and plain words in a content are. -/
theorem indexesText_chips : "Fish & chips" ∈ plainText "Fish &amp; chips" ∧
    IndexesTitle "Fish & chips" ∧ IndexesText plainText "chips" :=
  ⟨by decide +kernel, (rawText_contains_iff (fun _ => rfl) exists_plainText _).1,
    (rawText_contains_iff (fun _ => rfl) exists_plainText _).2.2 (by decide +kernel)⟩

/-- An apostrophe in a content is escaped. -/
theorem not_indexesText_apostrophe : ¬ IndexesText plainText "it's" := fun h =>
  absurd (h (newDocument "document_01" "article_001" "title" "Here it's.") (.new _ _ _ _)
    "Here it's." (by decide +kernel) (by decide +kernel)) (by decide +kernel)

end

end Knowtfolio
