import Knowtfolio.Data.Like
import Knowtfolio.Server.SearchResults

/-!
# Keywords

The search puts every piece of the keywords, as it is, between two percent signs. So it
finds the articles whose raw text contains all pieces if there is no percent sign,
underscore or backslash among the keywords, whatever the collation takes to be equal
(`literalSearch_iff`). Only then does it, on a collation that tells these three from all
other characters, as those of Unicode do not, to which the fullwidth percent sign is a
percent sign. On one to which all characters are the same, a percent sign finds just the
texts that contain it. In which order the pieces come makes no difference.
-/

namespace Knowtfolio

open Interaction

/-- The raw text contains every piece of the keywords, as the collation `same` has it. -/
def ContainsPieces (same : Char → Char → Bool) (keywords : String) (a : Article) : Prop :=
  ∀ piece ∈ Text.split keywords ' ', Like.Contains same piece.toList a.document.rawText.toList

section

variable [Environment] {same : Char → Char → Bool} {keywords : String} {w : World}

/-- A search by the keywords, without an owner, matches the articles stored of which the
    raw text contains every piece. -/
def LiteralSearch (same : Char → Char → Bool) (keywords : String) (w : World) : Prop :=
  ∀ request : SearchRequest, request.ownedBy = none → request.keywords = some keywords →
    ∀ a, a ∈ w.matching request.query ↔ a ∈ w.stored ∧ ContainsPieces same keywords a

/-- What the query of a search without an owner says of an article. -/
theorem holds_query (hlike : ∀ text pattern, MySQL.like text pattern = Like.like same text pattern)
    {request : SearchRequest} (hkeywords : request.keywords = some keywords) {a : Article} :
    World.holds request.query a = true ↔ ∀ piece ∈ Text.split keywords ' ',
      Like.isMatch same (Like.parse (Like.pattern piece.toList)) a.document.rawText.toList =
        true := by
  have hlikes : request.query.likes =
      (Text.split keywords ' ').map fun keyword => "%" ++ keyword ++ "%" := by
    rw [SearchRequest.query, SearchRequest.likes, hkeywords]
  rw [World.holds, hlikes, List.all_map, SearchRequest.query, Bool.true_and, List.all_eq_true]
  refine forall₂_congr fun piece _ => ?_
  rw [Function.comp_apply, hlike, Like.like, Like.pattern]
  simp only [String.toList_append]
  rfl

/-- Keywords without special characters are searched for literally, whatever characters MySQL takes
    for the same. -/
theorem literalSearch_of_plain
    (hlike : ∀ text pattern, MySQL.like text pattern = Like.like same text pattern)
    (hplain : ∀ c ∈ keywords.toList, Like.isSpecial c = false) : LiteralSearch same keywords w := by
  intro request _ hkeywords a
  rw [World.matching, List.mem_filter, holds_query hlike hkeywords]
  refine and_congr_right fun _ => forall₂_congr fun piece hpiece =>
    Like.isMatch_pattern fun c hc => ?_
  by_cases hspace : c = ' '
  · rw [hspace]
    rfl
  · exact hplain c ((Text.mem_split hspace).1 ⟨piece, hpiece, hc⟩)

/-- The article of a title that has no content. -/
def ofTitle (title : String) : Article := newArticle "article_001" "document_01" title "" "author"

/-- A world with this article. -/
def World.ofTitle (title : String) : World := (World.initial.insert (Knowtfolio.ofTitle title)).2

/-- In this world, one article is stored. -/
theorem stored_ofTitle (title : String) : (World.ofTitle title).stored = [ofTitle title] := rfl

/-- The document has its text. -/
theorem coherent_ofTitle (title : String) :
    ∀ d ∈ (World.ofTitle title).documents.rows, d.Coherent := by
  rintro d (_ | ⟨_, hd⟩)
  · exact Document.coherent_reloadRawText _
  · cases hd

/-- Keywords with a special character are not searched for literally in all states: there is a title
    that the pattern matches and the keywords are not in. -/
theorem plain_of_literalSearch
    (hlike : ∀ text pattern, MySQL.like text pattern = Like.like same text pattern)
    (hrefl : ∀ c, same c c = true)
    (hspecial : ∀ c d, same c d = true → Like.isSpecial c = Like.isSpecial d)
    (hempty : Bluemonday.stripTags "" = "")
    (h : ∀ title, LiteralSearch same keywords (World.ofTitle title)) :
    ∀ c ∈ keywords.toList, Like.isSpecial c = false := by
  by_contra hplain
  push Not at hplain
  obtain ⟨c, hc, hcspecial⟩ := hplain
  have hspace : c ≠ ' ' := fun heq => hcspecial (heq ▸ rfl)
  obtain ⟨piece, hpiece, hmem⟩ := (Text.mem_split hspace).2 hc
  have hspecialPiece : ∃ p ∈ (Text.split keywords ' ').map String.toList,
      ∃ c ∈ p, Like.isSpecial c = true :=
    ⟨piece.toList, List.mem_map_of_mem hpiece, c, hmem, Bool.eq_true_of_not_eq_false hcspecial⟩
  obtain ⟨text, hdiffers⟩ :=
    Like.exists_differs hrefl hspecial hspecialPiece (List.cons_ne_nil '\n' []) rfl
  simp only [List.forall_mem_map] at hdiffers
  -- The title is the text, and the raw text is the title and a newline.
  have hraw : (ofTitle (String.ofList text)).document.rawText.toList = text ++ ['\n'] := by
    change (String.ofList text ++ "\n" ++ Bluemonday.stripTags "").toList = _
    rw [hempty]
    simp
  let request : SearchRequest := { firstPage with keywords := some keywords }
  have hiff := h (String.ofList text) request rfl rfl (ofTitle (String.ofList text))
  rw [World.matching, List.mem_filter, stored_ofTitle, holds_query hlike rfl, ContainsPieces,
    hraw] at hiff
  simp only [List.mem_singleton, true_and] at hiff
  exact hdiffers hiff

/-- The order of the pieces makes no difference to what a search matches. -/
theorem matching_reordered {request : SearchRequest} (hkeywords : request.keywords = some keywords)
    {keywords' : String} (hperm : (Text.split keywords' ' ').Perm (Text.split keywords ' ')) :
    w.matching (SearchRequest.query { request with keywords := some keywords' }) =
      w.matching request.query := by
  refine List.filter_congr fun a _ => ?_
  simp only [World.holds, SearchRequest.query, SearchRequest.likes, hkeywords]
  rw [(hperm.map _).all_eq]

/-- The search for keywords is one for all texts that contain the pieces if there is no special
    character among them; and only then, on a collation under which no special character is equal
    to another one. In any order of the pieces it matches the same. -/
theorem literalSearch_iff (same : Char → Char → Bool) (keywords : String) :
    ((∀ text pattern, MySQL.like text pattern = Like.like same text pattern) →
      (∀ c ∈ keywords.toList, Like.isSpecial c = false) → ∀ w, LiteralSearch same keywords w) ∧
    ((∀ text pattern, MySQL.like text pattern = Like.like same text pattern) →
      (∀ c, same c c = true) →
      (∀ c d, same c d = true → Like.isSpecial c = Like.isSpecial d) →
      Bluemonday.stripTags "" = "" →
      (∀ w : World, (∀ d ∈ w.documents.rows, d.Coherent) → LiteralSearch same keywords w) →
      ∀ c ∈ keywords.toList, Like.isSpecial c = false) ∧
    ∀ keywords', (Text.split keywords' ' ').Perm (Text.split keywords ' ') →
      ∀ (w : World) (request : SearchRequest), request.keywords = some keywords →
        w.matching (SearchRequest.query { request with keywords := some keywords' }) =
          w.matching request.query :=
  ⟨fun hlike hplain _ => literalSearch_of_plain hlike hplain,
    fun hlike hrefl hspecial hempty h =>
      plain_of_literalSearch hlike hrefl hspecial hempty fun title => h _ (coherent_ofTitle title),
    fun _ hperm _ _ hkeywords => matching_reordered hkeywords hperm⟩

end

/-! Two searches, on a collation that takes capital and small letters of the alphabet for
the same. -/

section

/-- The letters are the same as their capitals. -/
def sameLetter (c d : Char) : Bool := c.toLower = d.toLower

/-- The special characters have no case. -/
theorem isSpecial_toLower (c : Char) : Like.isSpecial c.toLower = Like.isSpecial c := by
  have hval : ∀ d : Char, Like.isSpecial d = true → d.val = 37 ∨ d.val = 95 ∨ d.val = 92 := by
    intro d hd
    simp only [Like.isSpecial, Bool.or_eq_true, decide_eq_true_iff] at hd
    rcases hd with (rfl | rfl) | rfl <;> decide
  unfold Char.toLower
  split
  next hupper =>
    -- None of the three is a letter.
    have hlow := UInt32.le_iff_toNat_le.1 hupper.1
    have hhigh := UInt32.le_iff_toNat_le.1 hupper.2
    have hc : Like.isSpecial c = false := by
      by_contra h
      rcases hval c (Bool.eq_true_of_not_eq_false h) with h | h | h <;> rw [h] at hlow hhigh <;>
        simp at hlow hhigh
    rw [hc]
    by_contra h
    rcases hval _ (Bool.eq_true_of_not_eq_false h) with h | h | h <;>
      have h := congrArg UInt32.toNat h <;> simp at h hlow hhigh <;> omega
  next => rfl

/-- An environment with `LIKE`. -/
@[reducible] def likeEnvironment : Environment :=
  { Hardhat.environment with like := Like.like sameLetter }

attribute [local instance] likeEnvironment

/-- A world with an article that was created. -/
def created : World :=
  (World.initial.insert
    (newArticle "article_001" "document_01" "A title" "Some content" "author")).2

/-- A search by words finds the article; and one with an underscore does not on all worlds find
    what contains it. -/
theorem literalSearch_created : LiteralSearch sameLetter "TITLE content" created ∧
    created.matching (SearchRequest.query { firstPage with keywords := some "TITLE content" }) ≠ [] ∧
    created.matching (SearchRequest.query { firstPage with keywords := some "content TITLE" }) =
      created.matching (SearchRequest.query { firstPage with keywords := some "TITLE content" }) ∧
    ¬ ∀ w : World, (∀ d ∈ w.documents.rows, d.Coherent) → LiteralSearch sameLetter "c_n" w := by
  refine ⟨(literalSearch_iff _ _).1 (fun _ _ => rfl) (Like.isSpecial_of_all rfl) _, by decide +kernel,
    (literalSearch_iff sameLetter "TITLE content").2.2 "content TITLE" (by decide) created
      { firstPage with keywords := some "TITLE content" } rfl, fun h => ?_⟩
  have hspecial : ∀ c d, sameLetter c d = true → Like.isSpecial c = Like.isSpecial d := by
    intro c d h
    rw [← isSpecial_toLower c, ← isSpecial_toLower d, of_decide_eq_true h]
  have hplain := (literalSearch_iff sameLetter "c_n").2.1 (fun _ _ => rfl)
    (fun c => by simp [sameLetter]) hspecial rfl h '_' (by decide)
  cases hplain

/-- The low line stands for any character. -/
theorem not_literalSearch_created : ¬ LiteralSearch sameLetter "c_n" created := by
  intro h
  let request : SearchRequest := { firstPage with keywords := some "c_n" }
  have hmatching : newArticle "article_001" "document_01" "A title" "Some content" "author" ∈
      created.matching request.query := by decide +kernel
  obtain ⟨mid, hmid, hsame⟩ := ((h request rfl rfl _).1 hmatching).2 "c_n" (by decide)
  obtain ⟨x, hx, hspecial⟩ := Lists.exists_left hsame (show '_' ∈ "c_n".toList by decide)
  have hraw : ∀ c ∈ ("A title" ++ "\n" ++ "Some content").toList, Like.isSpecial c = false :=
    Like.isSpecial_of_all rfl
  have hfalse := hraw x (hmid.subset hx)
  rw [← isSpecial_toLower, of_decide_eq_true hspecial] at hfalse
  cases hfalse

end

end Knowtfolio
