/-
  Tables of attributes in class files.

  * each attribute has a name, a length and that many bytes of content;
    `AttributeTable.read` threads a state through the attributes of a table,
    and each must be read to its end;
  * `AttributeTable.attr` writes one attribute, `AttributeTable.write` the
    table of attributes written before.
-/
import JvmClass.Linkage.Builder

namespace JvmClass.AttributeTable

open Reader in
/-- Read a table of attributes, where `step` reads the content of one with a
    given name. -/
def read {σ : Type} (pool : Pool) (step : String → σ → Reader σ) (state : σ) : Reader σ := do
  let count ← u2
  fold (fun state => do
    let index ← u2
    let length ← u4
    let name ← pool.utf8 index
    let (next, content) ← (step name state).runOn (← take length.toNat)
    unless content.isEmpty do throw (.unreadBytes name content.remaining)
    return next) count.toNat state

open Bytes in
/-- Write an attribute. -/
def attr (name : String) (content : Bytes) : Linking Bytes := do
  let length := content.length
  if length > 0xFFFFFFFF then throw (.attributeLength name length)
  return u2 (← Pool.Intern.utf8 name) ++ u4 (UInt32.ofNat length) ++ content

/-- Write an attribute if there is one, as a list of one or none. -/
def optional {α : Type} (name : String) (write : α → Linking Bytes) :
    Option α → Linking (List Bytes)
  | some a => return [← attr name (← write a)]
  | none => return []

/-- Write the table of the attributes `written`. -/
def write (written : List Bytes) : Except Invalid Bytes := do
  return Bytes.u2 (← Linking.count written.length "attributes") ++ written.flatten

end JvmClass.AttributeTable
