/-!
# The tokens of a YAML text

A text is read as a list of tokens, in which the block structure that the text
shows by indentation is spelled out: every block collection is bracketed by a
start token and `blockEnd`, and the key of every entry is announced by `key`,
although in the text nothing stands before it.
-/

namespace SiteConfig.Yaml

/-- How a scalar was written. -/
inductive ScalarStyle where
  | plain
  | singleQuoted
  | doubleQuoted
  | literal
  | folded
  deriving DecidableEq, Repr

/-- A token. -/
inductive Token where
  | versionDirective (major minor : Nat)
  /-- A handle such as `!e!` and what it stands for. -/
  | tagDirective (handle expansion : String)
  | documentStart
  | documentEnd
  | blockSequenceStart
  | blockMappingStart
  | blockEnd
  | flowSequenceStart
  | flowSequenceEnd
  | flowMappingStart
  | flowMappingEnd
  /-- The dash before an item. -/
  | blockEntry
  /-- The comma between items. -/
  | flowEntry
  | key
  | value
  | alias (name : String)
  | anchor (name : String)
  /-- The handle of a tag and the rest of it; a tag in angle brackets has no handle. -/
  | tag (handle suffix : String)
  | scalar (style : ScalarStyle) (text : String)
  deriving DecidableEq, Repr

end SiteConfig.Yaml
