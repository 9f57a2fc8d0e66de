import SiteConfig.Document

/-!
# Transforms of source documents

Before a source is compared with a target, each of its documents passes through a
list of transforms. A transform rewrites a document or drops it from the source
altogether. Two kinds are common, the removal of keys and the dropping of documents by
their names; any other rewriting will do as well (`SiteConfig.Rewriting`), as long as
documents keep their names.
-/

namespace SiteConfig

/-- Any rewriting of the data of documents, which may also drop a document. What it makes
of a document is a mapping as any other: no key is there twice. -/
structure Rewriting where
  data? : Document → Option Yaml.Mapping
  proper : ∀ {d m}, data? d = some m → (Yaml.Value.mapping m).Proper

/-- What is done to source documents. -/
inductive Transform where
  /-- Removes top-level keys. -/
  | stripKeys (keys : List String)
  /-- Drops the documents whose names pass a test. -/
  | dropWhere (test : String → Bool)
  /-- Rewrites documents in some other way. -/
  | rewrite (f : Rewriting)

namespace Transform

/-- Drops the documents whose names begin with a text. -/
def dropNames (start : String) : Transform :=
  .dropWhere fun name => start.toList.isPrefixOf name.toList

/-- The document after a transform, unless that drops it. -/
def apply (t : Transform) (d : Document) : Option Document :=
  match t with
  | .stripKeys keys => some (d.removeAll keys)
  | .dropWhere test => if test d.name then none else some d
  | .rewrite f => (f.data? d).map fun m => ⟨d.name, m⟩

/-- The document after some transforms, one after the other. -/
def applyAll (ts : List Transform) (d : Document) : Option Document :=
  ts.foldlM (fun d t => t.apply d) d

/-- Transforms keep the names of documents. -/
theorem name_apply {t : Transform} {d d' : Document} (h : t.apply d = some d') :
    d'.name = d.name := by
  cases t with
  | stripKeys keys => cases h; simp
  | dropWhere test =>
    simp only [apply] at h
    split at h
    · cases h
    · cases h; rfl
  | rewrite f =>
    obtain ⟨m, -, rfl⟩ := Option.map_eq_some_iff.1 h
    rfl

theorem name_applyAll {ts : List Transform} {d d' : Document} (h : applyAll ts d = some d') :
    d'.name = d.name := by
  induction ts generalizing d with
  | nil => cases h; rfl
  | cons t ts ih =>
    simp only [applyAll, List.foldlM_cons, Option.bind_eq_bind] at h
    obtain ⟨e, he, hr⟩ := Option.bind_eq_some_iff.1 h
    rw [ih hr, name_apply he]

end Transform

end SiteConfig
