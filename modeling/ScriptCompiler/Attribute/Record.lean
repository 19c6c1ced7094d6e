import ScriptCompiler.Attribute.Blob
import ScriptCompiler.Metadata.Table

/-!
# Attributes with their arguments
-/

namespace ScriptCompiler.Attribute

open Metadata (MemberSignature AttributeEntry)

/-- An attribute on an entity. -/
structure Record where
  /-- Full name of the attribute's type. -/
  typeName : String
  constructor : MemberSignature
  arguments : Arguments
deriving Inhabited

namespace Record

/-- The attribute of a table entry. -/
def ofEntry (a : AttributeEntry) : Except BlobError Record := do
  let arguments ← Arguments.decode a.blob a.constructor.parameters
  return { typeName := a.typeName, constructor := a.constructor, arguments }

/-- The value of the first named argument with the given name. -/
def namedArgument? (r : Record) (name : String) : Option Value :=
  (r.arguments.named.find? (·.name == name)).map (·.value)

end Record

end ScriptCompiler.Attribute
