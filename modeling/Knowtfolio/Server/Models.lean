import Mathlib.Data.List.Basic

/-!
# Articles and documents

`server/models`: an article as the services hold it in memory, with its
document, and the two rows it is stored in. An article loaded without its
document has the zero `Document`.

The text a document is searched by (`rawText`) is its title and its content
without tags. It is recomputed whenever one of the two is set, so that it never
differs from them (`Document.Coherent`).
-/

namespace Knowtfolio

/-- The sanitizers of bluemonday. -/
class Bluemonday where
  /-- `StripTagsPolicy().Sanitize`. -/
  stripTags : String → String
  /-- `UGCPolicy().SanitizeBytes`. -/
  ugc : String → String

/-- A `Document`. All documents are of articles. -/
structure Document where
  id : String
  ownerID : String
  title : String
  content : String
  rawText : String
  deriving DecidableEq

/-- The zero value of `Document`. -/
def Document.zero : Document := ⟨"", "", "", "", ""⟩

/-- An `Article`. -/
structure Article where
  id : String
  document : Document
  originalAuthorID : String
  isTokenized : Bool
  deriving DecidableEq

/-- The row of an article, its document being stored apart. -/
structure ArticleRow where
  id : String
  originalAuthorID : String
  isTokenized : Bool
  deriving DecidableEq

/-- The row of an article. -/
def Article.row (a : Article) : ArticleRow := ⟨a.id, a.originalAuthorID, a.isTokenized⟩

/-- The article of a row, with the document `d`. -/
def ArticleRow.article (r : ArticleRow) (d : Document) : Article :=
  ⟨r.id, d, r.originalAuthorID, r.isTokenized⟩

/-- `SetIsTokenized`. -/
def Article.setIsTokenized (a : Article) : Article := { a with isTokenized := true }

namespace Document

variable [Bluemonday]

/-- `reloadRawText`. -/
def reloadRawText (d : Document) : Document :=
  { d with rawText := d.title ++ "\n" ++ Bluemonday.stripTags d.content }

/-- `SetTitleIfPresent`. -/
def setTitleIfPresent (d : Document) : Option String → Document
  | some title => reloadRawText { d with title }
  | none => d

/-- `SetContentIfPresent`. -/
def setContentIfPresent (d : Document) : Option String → Document
  | some content => reloadRawText { d with content }
  | none => d

/-- `SanitizedContent`. -/
def sanitizedContent (d : Document) : String := Bluemonday.ugc d.content

/-- The raw text is the one of the title and the content. -/
def Coherent (d : Document) : Prop := d.rawText = d.title ++ "\n" ++ Bluemonday.stripTags d.content

instance (d : Document) : Decidable d.Coherent := inferInstanceAs (Decidable (_ = _))

/-- After its raw text was reloaded, a document is coherent. -/
theorem coherent_reloadRawText (d : Document) : d.reloadRawText.Coherent := rfl

/-- The raw text of a coherent document is as it would be reloaded. -/
theorem Coherent.reloadRawText_eq {d : Document} (h : d.Coherent) : d.reloadRawText = d := by
  cases d; simp only [reloadRawText, Coherent] at h ⊢; rw [h]

/-- A document keeps its key and its owner when it is edited, and its fields
    are those given, or those it had. -/
theorem set_if_present (d : Document) (title content : Option String) (h : d.Coherent) :
    (d.setTitleIfPresent title).setContentIfPresent content =
      reloadRawText { d with
        title := title.getD d.title
        content := content.getD d.content } := by
  cases title with
  | none => cases content with
    | none => exact h.reloadRawText_eq.symm
    | some c => rfl
  | some t => cases content with
    | none => rfl
    | some c => rfl

end Document

/-- `NewDocument`, with the generated id `id`. -/
def newDocument [Bluemonday] (id parentID title content : String) : Document :=
  Document.reloadRawText ⟨id, parentID, title, content, ""⟩

/-- `NewArticle`, with the generated ids of the article and its document. -/
def newArticle [Bluemonday] (id documentID title content authorID : String) : Article :=
  ⟨id, newDocument documentID id title content, authorID, false⟩

/-- `NFTMetadata`, its URLs as text. -/
structure NFTMetadata where
  name : String
  description : String
  externalURL : String
  image : String
  deriving DecidableEq

/-- `NewNFTMetadata`. -/
def newNFTMetadata (target : Article) : NFTMetadata where
  name := "Knowtfolio Article " ++ target.id
  description := "The owner of this token has ownership and editorial rights to article " ++
    target.id ++ " on Knowtfolio."
  externalURL := "https://knowtfolio.com/articles/" ++ target.id
  image := "https://i.imgur.com/n9peHW2.png"

end Knowtfolio
