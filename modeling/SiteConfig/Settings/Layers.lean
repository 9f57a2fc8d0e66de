import SiteConfig.Yaml.Value

/-!
# Layers of settings

Settings come in layers, each a value that is laid over the ones before it. Where
both layers have a mapping, they are merged key by key; elsewhere the upper one
counts. A null in the upper layer means "not set" and leaves what is beneath.

Keys of the lower mapping keep their places; new keys follow in the order of the
upper one.
-/

namespace SiteConfig.Yaml.Value

mutual
/-- **Lays a value over another one.** -/
def overlay (base : Value) : Value → Value
  | .mapping upper =>
    match base with
    | .mapping lower => .mapping (overlayEntries lower upper)
    | _ => .mapping upper
  | .null => base
  | upper => upper

/-- Lays entries over a mapping, one by one. -/
def overlayEntries (lower : Mapping) : List (Value × Value) → Mapping
  | [] => lower
  | (k, v) :: r =>
    let merged :=
      if lower.any fun e => e.1.same k then
        lower.map fun e => if e.1.same k then (e.1, overlay e.2 v) else e
      else lower ++ [(k, v)]
    overlayEntries merged r
end

/-- Lays some values over one another, the first one lowest. -/
def overlayAll (base : Value) (layers : List Value) : Value := layers.foldl overlay base

end SiteConfig.Yaml.Value
