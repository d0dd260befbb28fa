/-
  The kinds of constant pool slots and their names.
-/

namespace JvmClass.Pool

/-- What a constant pool slot holds.  `reserved` is slot 0 and the slot after a
    `long` or a `double`. -/
inductive Kind where
  | reserved | utf8 | integer | float | long | double | classRef | string
  | fieldRef | methodRef | interfaceMethodRef | nameAndType
  | methodHandle | methodType | dynamic | invokeDynamic | module | package
  deriving DecidableEq, Repr

/-- The name under which a kind appears in messages. -/
def Kind.name : Kind → String
  | reserved => "Reserved"
  | utf8 => "Utf8"
  | integer => "Integer"
  | float => "Float"
  | long => "Long"
  | double => "Double"
  | classRef => "Class"
  | string => "String"
  | fieldRef => "Fieldref"
  | methodRef => "Methodref"
  | interfaceMethodRef => "InterfaceMethodref"
  | nameAndType => "NameAndType"
  | methodHandle => "MethodHandle"
  | methodType => "MethodType"
  | dynamic => "Dynamic"
  | invokeDynamic => "InvokeDynamic"
  | module => "Module"
  | package => "Package"

end JvmClass.Pool
