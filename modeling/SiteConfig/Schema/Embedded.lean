import SiteConfig.Schema.Catalog

/-!
# The schemas of the common documents

These schemas are known without any file: those of the installed extensions, of
image styles, content types and menus, and of the site itself.
-/

namespace SiteConfig.SchemaCatalog

/-- The statement of the installed extensions. -/
def coreExtensionSchema : Json :=
  .object [
    ("additionalProperties", .bool false),
    ("properties", .object [
        ("module", .object [
            ("additionalProperties", .object [("type", .string "integer")]),
            ("type", .string "object")]),
        ("profile", .object [("type", .string "string")]),
        ("theme", .object [
            ("additionalProperties", .object [("type", .string "integer")]),
            ("type", .string "object")])]),
    ("required", .array [.string "module"]),
    ("title", .string "Installed extensions"),
    ("type", .string "object")]

/-- How images are derived. -/
def imageStyleSchema : Json :=
  .object [
    ("additionalProperties", .bool false),
    ("properties", .object [
        ("effects", .object [
            ("additionalProperties", .object [
                ("additionalProperties", .bool false),
                ("properties", .object [
                    ("data", .object [("type", .string "object")]),
                    ("id", .object [("type", .string "string")]),
                    ("uuid", .object [("type", .string "string")]),
                    ("weight", .object [("type", .string "integer")])]),
                ("required", .array [.string "id", .string "weight"]),
                ("type", .string "object")]),
            ("type", .string "object")]),
        ("label", .object [("type", .string "string")]),
        ("name", .object [("type", .string "string")]),
        ("status", .object [("type", .string "boolean")])]),
    ("required", .array [.string "name", .string "label"]),
    ("title", .string "Image style"),
    ("type", .string "object"),
    ("x-config-pattern", .string "image.style.*")]

/-- Content types. -/
def nodeTypeSchema : Json :=
  .object [
    ("additionalProperties", .bool false),
    ("properties", .object [
        ("description", .object [("type", .array [.string "string", .string "null"])]),
        ("display_submitted", .object [("type", .string "boolean")]),
        ("help", .object [("type", .array [.string "string", .string "null"])]),
        ("name", .object [("type", .string "string")]),
        ("new_revision", .object [("type", .string "boolean")]),
        ("preview_mode", .object [
            ("enum", .array [.int 0, .int 1, .int 2]),
            ("type", .string "integer")]),
        ("status", .object [("type", .string "boolean")]),
        ("type", .object [("type", .string "string")])]),
    ("required", .array [.string "type", .string "name"]),
    ("title", .string "Content type"),
    ("type", .string "object"),
    ("x-config-pattern", .string "node.type.*")]

/-- Menus. -/
def menuSchema : Json :=
  .object [
    ("additionalProperties", .bool false),
    ("properties", .object [
        ("description", .object [("type", .string "string")]),
        ("id", .object [("type", .string "string")]),
        ("label", .object [("type", .string "string")]),
        ("locked", .object [("type", .string "boolean")]),
        ("status", .object [("type", .string "boolean")])]),
    ("required", .array [.string "id", .string "label"]),
    ("title", .string "Menu entity"),
    ("type", .string "object"),
    ("x-config-pattern", .string "system.menu.*")]

/-- The identity of the site. -/
def siteSchema : Json :=
  .object [
    ("additionalProperties", .bool false),
    ("properties", .object [
        ("admin_compact_mode", .object [("type", .string "boolean")]),
        ("default_langcode", .object [("type", .string "string")]),
        ("mail", .object [("type", .string "string")]),
        ("name", .object [("type", .string "string")]),
        ("page", .object [
            ("additionalProperties", .bool false),
            ("properties", .object [
                ("403", .object [("type", .string "string")]),
                ("404", .object [("type", .string "string")]),
                ("front", .object [("type", .string "string")])]),
            ("type", .string "object")]),
        ("slogan", .object [("type", .string "string")]),
        ("weight_select_max", .object [("minimum", .int 1), ("type", .string "integer")])]),
    ("required", .array [.string "name"]),
    ("title", .string "Site information"),
    ("type", .string "object")]

/-- The schemas with their names. -/
def embeddedSources : List (String × Json) :=
  [("core.extension", coreExtensionSchema), ("image.style", imageStyleSchema), ("node.type", nodeTypeSchema), ("system.menu", menuSchema), ("system.site", siteSchema)]

/-- The catalog of these schemas. -/
def embedded : SchemaCatalog :=
  match ofSchemas embeddedSources with
  | .ok c => c
  | .error _ => ⟨[], false⟩

end SiteConfig.SchemaCatalog
