import Dispatch.Domain
import Dispatch.Labelled
import Dispatch.Line
import Dispatch.ParseError

/-!
Reading the declarations of entity types, variables and items. Item collections are read before
variables, so that the owner of a variable is known to be dynamic or not.
-/

namespace Dispatch

/-- The text with its role cut off, where it ends in a parenthesis; a closing parenthesis needs an
opening one.
-/
def cutRole? (text : List Char) : Option (List Char × Option (List Char)) :=
  match Text.beforeEnd? ')' text with
  | none => some (text, none)
  | some inside =>
      (Text.cutAtLast? (· = '(') inside).map fun (before, role) => (before, some (Text.trim role))

namespace EntityDecl

/-- Reads the name and the role of an entity type, from `Name` or `Name (Role)`. -/
def ofPiece (piece : Line) : Except ParseError (String × Option String) := do
  let (name, role) ←
    match Text.cutAtFirst? '(' piece.text with
    | none => pure (piece.text, none)
    | some (before, after) =>
        match Text.beforeEnd? ')' after with
        | none => throw (.ofFault .unclosedRole piece.span)
        | some role => pure (Text.trim before, some (String.ofList (Text.trim role)))
  if name = [] then throw (.ofFault .missingEntityName piece.span)
  return (String.ofList name, role)

end EntityDecl

namespace Vocabulary

/-- Declares the entity types of the pieces of a line; empty pieces are skipped. -/
def readEntities (vocabulary : Vocabulary) : List Line → Except ParseError Vocabulary
  | [] => .ok vocabulary
  | piece :: rest => do
      if piece.text = [] then readEntities vocabulary rest
      else
        let (name, role) ← EntityDecl.ofPiece piece
        match vocabulary.addEntity? name role piece.number with
        | none => throw (.ofFault (.entityTwice name) piece.span)
        | some vocabulary => readEntities vocabulary rest

/-- Declares the fields of a collection under their names. -/
def readFields (vocabulary : Vocabulary) (collection : Nat) (line : Line)
    : List FieldDecl → Except ParseError Vocabulary
  | [] => .ok vocabulary
  | field :: rest => do
      let place := Place.field collection field.slot field.constant
      match vocabulary.addName? field.name place field.kind with
      | none => throw (.ofFault (.fieldTwice field.name) line.span)
      | some vocabulary => readFields vocabulary collection line rest

end Vocabulary

/-- The name and the kind that words declare: a last word that is a kind and not the whole name is
the kind, which is a number otherwise.
-/
def nameAndKind (words : List (List Char)) : List Char × Kind :=
  match words.getLast?.bind Kind.ofKeyword? with
  | some kind =>
      if words.length = 1 then (Text.joinWords words, .int)
      else (Text.joinWords words.dropLast, kind)
  | none => (Text.joinWords words, .int)

namespace FieldDecl

/-- Whether the word starts a group of fields, and whether those are constant. -/
def groupStart? (word : List Char) : Option Bool :=
  if word = "const".toList then some true
  else if word = "var".toList then some false
  else none

/-- Reads the fields of an item, numbered after the given counts of constant and mutable fields. -/
def ofGroups (line : Line) (constants mutables : Nat)
    : List (Bool × List (List Char)) → Except ParseError (List FieldDecl)
  | [] => .ok []
  | (constant, words) :: rest => do
      let (name, kind) := nameAndKind words
      if name = [] then throw (.ofFault .missingFieldName line.span)
      let slot := if constant then constants else mutables
      let fields ← ofGroups line (constants + if constant then 1 else 0)
        (mutables + if constant then 0 else 1) rest
      return ⟨String.ofList name, kind, constant, slot⟩ :: fields

end FieldDecl

namespace ItemsDecl

/-- Reads an `items` declaration from the text after that word, and declares its names. -/
def read (vocabulary : Vocabulary) (line : Line) (text : List Char)
    : Except ParseError (Vocabulary × ItemsDecl) := do
  let words := Text.words (text.map fun c => if c = ',' then ' ' else c)
  let (owner, groups) := labelled FieldDecl.groupStart? words
  if groups.isEmpty then throw (.ofFault .missingFieldGroup line.span)
  let name := String.ofList (Text.joinWords owner)
  let some entity := vocabulary.entity? name | throw ⟨.unknownEntity name, line.span⟩
  let fields ← FieldDecl.ofGroups line 0 0 groups
  let collection := vocabulary.collections.length
  let some vocabulary := vocabulary.addCollection? entity fields.length
    | throw (.ofFault (.itemsTwice name) line.span)
  let vocabulary ← vocabulary.readFields collection line fields
  return (vocabulary, ⟨entity, collection, fields, line.number⟩)

/-- Reads the `items` declarations among the lines. -/
def readAll (vocabulary : Vocabulary)
    : List Line → Except ParseError (Vocabulary × List ItemsDecl)
  | [] => .ok (vocabulary, [])
  | line :: rest => do
      match Text.afterWord? "items" line.text with
      | none => readAll vocabulary rest
      | some text =>
          let (vocabulary, items) ← read vocabulary line text
          let (vocabulary, more) ← readAll vocabulary rest
          return (vocabulary, items :: more)

end ItemsDecl

namespace VariableDecl

/-- The entity type to which a variable belongs. -/
def ownerNamed (vocabulary : Vocabulary) (line : Line) (text : List Char)
    : Except ParseError Nat := do
  let name := String.ofList (Text.trim text)
  let some entity := vocabulary.entity? name | throw ⟨.unknownEntity name, line.span⟩
  if (vocabulary.collection? entity).isSome then
    throw (.ofFault (.dynamicOwner name) line.span)
  return entity

/-- Reads the declaration of a variable from the text after its first word. -/
def ofText (vocabulary : Vocabulary) (line : Line) (constant : Bool) (slot : Nat)
    (text : List Char) : Except ParseError VariableDecl := do
  let some (text, role) := cutRole? (Text.trim text)
    | throw (.ofFault .unbalancedDeclaration line.span)
  let (text, owner) ←
    match Text.cutAtLast? (· = '-') text with
    | none => pure (text, none)
    | some (before, after) => do
        let owner ← ownerNamed vocabulary line after
        pure (before, some owner)
  let (name, kind) := nameAndKind (Text.words text)
  if name = [] then throw (.ofFault .missingVariableName line.span)
  return ⟨String.ofList name, kind, constant, owner, role.map String.ofList, slot, line.number⟩

/-- Whether the line declares a constant, and the text after its first word. -/
def start? (line : Line) : Option (Bool × List Char) :=
  match Text.afterWord? "const" line.text with
  | some text => some (true, text)
  | none => (Text.afterWord? "var" line.text).map (false, ·)

/-- Reads the variables among the lines, numbered after the given counts of constants and mutable
variables; lines that declare items are skipped.
-/
def readAll (vocabulary : Vocabulary) (constants mutables : Nat)
    : List Line → Except ParseError (Vocabulary × List VariableDecl)
  | [] => .ok (vocabulary, [])
  | line :: rest => do
      if (Text.afterWord? "items" line.text).isSome then
        readAll vocabulary constants mutables rest
      else
        let some (constant, text) := start? line
          | throw (.ofFault .unknownDeclaration line.span)
        let decl ← ofText vocabulary line constant (if constant then constants else mutables) text
        let some vocabulary := vocabulary.addName? decl.name decl.place decl.kind
          | throw (.ofFault (.variableTwice decl.name) line.span)
        let (vocabulary, more) ← readAll vocabulary (constants + if constant then 1 else 0)
          (mutables + if constant then 0 else 1) rest
        return (vocabulary, decl :: more)

end VariableDecl

end Dispatch
