import SiteConfig.Attempt
import SiteConfig.Extension.Catalog
import SiteConfig.Failure

/-!
# Installing extensions

How extensions are installed is not the business of an import: it asks a
**lifecycle** to install and uninstall them, one kind at a time, and to say what is
installed and what is known about an extension.
-/

namespace SiteConfig

/-- What installs and uninstalls extensions, over a state. -/
structure Lifecycle (σ : Type) where
  /-- Installs extensions of one kind, in the given order. -/
  install : ExtensionKind → List String → Attempt σ Failure Unit
  /-- Uninstalls extensions of one kind, in the given order. -/
  uninstall : ExtensionKind → List String → Attempt σ Failure Unit
  /-- Every installed extension, modules first, each kind in the order of names. -/
  installed : Attempt σ Failure (List Extension)
  /-- What is known about an extension that could be installed. -/
  info : Extension → Attempt σ Failure (Option ExtensionInfo)

namespace Lifecycle

/-- Puts an extension into a list in order, unless it is there. -/
def insertExtension (e : Extension) : List Extension → List Extension
  | [] => [e]
  | f :: r =>
    if e = f then f :: r else if e.before f then e :: f :: r else f :: insertExtension e r

/-- Some extensions in order, each once. -/
def inOrder (l : List Extension) : List Extension :=
  l.foldl (fun acc e => insertExtension e acc) []

end Lifecycle

end SiteConfig
