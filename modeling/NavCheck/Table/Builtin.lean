import NavCheck.Table.Basic

/-!
# Built-in types

The types that every unit can use without declaring them.
-/

namespace NavCheck

namespace TypeInfo

/-- The types of plain values. -/
def plainValues : List TypeInfo :=
  ["int", "long", "double", "bool", "char"].map (bare · .value)

/-- The type that every value has. -/
def objectInfo : TypeInfo :=
  { bare "object" .reference with
    members := [.method "object" "ToString" [] .string, .method "object" "GetHashCode" [] .int] }

/-- The type of texts; their characters can be read by index. -/
def stringInfo : TypeInfo :=
  { bare "string" .reference with
    members := [.property "string" "Length" .int, .method "string" "ToUpper" [] .string,
      .method "string" "ToLower" [] .string, .method "string" "Trim" [] .string,
      .method "string" "Contains" [.plain "value" .string] .bool]
    indexers := [⟨[.plain "index" .int], .char, false⟩] }

/-- An unconstrained generic parameter. -/
def freeGeneric (name : String) : GenericInfo :=
  ⟨name, .none⟩

/-- The type of lists. -/
def listInfo : TypeInfo :=
  let element := (freeGeneric "T").type
  { bare "List" .reference with
    generics := [freeGeneric "T"]
    members := [.property "List" "Count" .int, .method "List" "Add" [.plain "item" element] .void]
    indexers := [⟨[.plain "index" .int], element, true⟩] }

/-- The type of dictionaries. -/
def dictionaryInfo : TypeInfo :=
  let key := (freeGeneric "TKey").type
  let value := (freeGeneric "TValue").type
  { bare "Dictionary" .reference with
    generics := [freeGeneric "TKey", freeGeneric "TValue"]
    members := [.property "Dictionary" "Count" .int, .method "Dictionary" "ContainsKey" [.plain "key" key] .bool]
    indexers := [⟨[.plain "key" key], value, true⟩] }

end TypeInfo

/-- The table of the built-in types. -/
def TypeTable.builtin : TypeTable :=
  ⟨TypeInfo.plainValues ++ [TypeInfo.objectInfo, TypeInfo.stringInfo, TypeInfo.listInfo, TypeInfo.dictionaryInfo]⟩

end NavCheck
