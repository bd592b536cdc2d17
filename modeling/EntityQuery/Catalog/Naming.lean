import EntityQuery.Text.LetterCase

/-!
Default names of tables and columns: upper case words with underscores between them, foreign keys
marked in front.

* A new word starts at a capital after a small letter or a digit, and at the last capital of
  several if a small letter follows.
-/

namespace EntityQuery.Naming

/-- The mark of a foreign key column. -/
def foreignKeyMark : String := "IDFK_"

/-- Whether a word starts at a capital, given its neighbours. -/
def startsWord (before : Char) (after : Option Char) : Bool :=
  Text.isLower before || before.isDigit || (Text.isUpper before && after.any Text.isLower)

/-- The upper case words of a name, after the character in front if there is one. -/
def words : Option Char → List Char → List Char
  | _, [] => []
  | before, c :: rest =>
    let mark := if Text.isUpper c && before.any (startsWord · rest.head?) then ['_'] else []
    let here := if c = '-' ∨ c = ' ' then ['_'] else Text.upper c
    mark ++ here ++ words (some c) rest

/-- A name in upper case with underscores between its words. -/
def upperSnake (name : String) : String := String.ofList (words none name.toList)

def tableName (entity : String) : String := upperSnake entity

def columnName (property : String) : String := upperSnake property

def foreignKeyColumn (property : String) : String := foreignKeyMark ++ upperSnake property

def linkTableName (ownerTable property : String) : String :=
  ownerTable ++ "_" ++ upperSnake property

end EntityQuery.Naming
