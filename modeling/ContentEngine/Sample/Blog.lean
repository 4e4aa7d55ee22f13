import ContentEngine.Store.Memory

/-!
# A blog

A small content model with every kind of attribute: articles with drafts, their authors, tags and
media, and two components. Its store holds two articles that refer to each other.
-/

namespace ContentEngine.Blog

def field (name : String) (kind : ScalarKind) (required : Bool := false) : AttributeDefinition :=
  ⟨name, .scalar kind, required⟩

def one (name target : String) : AttributeDefinition := ⟨name, .relationOne target, false⟩

def many (name target : String) : AttributeDefinition := ⟨name, .relationMany target, false⟩

def article : DocumentType where
  name := "article"
  draftAndPublish := true
  attributes := [
    one "author" "author",
    ⟨"blocks", .dynamicZone ["blocks.cta", "blocks.hero"], false⟩,
    field "featured" .boolean,
    ⟨"mentions", .polymorphic ["author", "tag"], false⟩,
    field "meta" .json,
    field "rating" .float,
    many "related" "article",
    field "releasedOn" .datetime,
    field "slug" .text,
    many "tags" "tag",
    field "title" .text true,
    field "views" .integer]

def author : DocumentType where
  name := "author"
  attributes := [
    many "articles" "article",
    one "avatar" "media",
    field "email" .text,
    field "name" .text true]
  defaultPopulate := ["avatar"]

def tag : DocumentType where
  name := "tag"
  attributes := [field "label" .text true]

def media : DocumentType where
  name := "media"
  attributes := [field "alt" .text, field "url" .text]

def hero : DocumentType where
  name := "blocks.hero"
  kind := .component
  attributes := [field "heading" .text, one "image" "media"]
  defaultPopulate := ["image"]

def cta : DocumentType where
  name := "blocks.cta"
  kind := .component
  attributes := [field "label" .text, one "link" "article"]

def types : List DocumentType := [article, author, tag, media, hero, cta]

def registry : Registry := ⟨Entries.ofList (types.map fun t => (t.name, t.withSystemAttributes))⟩

theorem build_types : Registry.build types = .ok registry := rfl

/-- A published article with what is stored under its related articles. -/
def related (id : DocumentId) (articles : List Value) : Document :=
  ⟨"article", id, some .published, [("related", .list articles)]⟩

def first : Document := related "a" [.ref "b", .ref "b"]

def second : Document := related "b" [.ref "a"]

/-- A draft of the first article that was not published. -/
def revision : Document := ⟨"article", "a", some .draft, [("title", .text "Unpublished")]⟩

def store : MemoryStore := (({ registry, now := "" } : MemoryStore).insert first).insert second

end ContentEngine.Blog
