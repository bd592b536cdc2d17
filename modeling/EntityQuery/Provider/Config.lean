import EntityQuery.Json.Skim
import EntityQuery.Text.Split
import EntityQuery.Types.Codec

/-!
The configuration of a provider: a dialect and a connection string, from a JSON document or from
environment variables.

* In a file of variables, blank lines and lines that start with `#` say nothing; every other line
  is `KEY=VALUE`. The last value of a key counts, over the one of the process.
* A value may stand in quotes of either kind.
-/

namespace EntityQuery.Provider

structure Config where
  dialect : Dialect
  connectionString : String
  deriving DecidableEq, Repr, Inhabited

/-- Why environment variables are no configuration. -/
inductive ConfigError where
  | malformedLine (number : Nat)
  | emptyKey (number : Nat)
  | missingVariable (name : String)
  | unsupportedDialect (name : String)
  deriving DecidableEq, Repr

def ConfigError.detail : ConfigError → String
  | .malformedLine n =>
    "Invalid env file: malformed line " ++ toString n ++ " (expected KEY=VALUE)"
  | .emptyKey n => "Invalid env file: empty key at line " ++ toString n
  | .missingVariable name => "Missing environment variable " ++ name
  | .unsupportedDialect name => "Unsupported dialect: " ++ name

def ConfigError.message (e : ConfigError) : String := "Configuration error: " ++ e.detail

/-! ### Environment variables -/

/-- The variable that holds the dialect. -/
def dialectVariable : String := "QUERYC_DIALECT"

/-- The variable that holds the connection string. -/
def connectionVariable : String := "QUERYC_CONNECTION_STRING"

/-- Variables with their values, the newest first. -/
abbrev Environment := List (String × String)

/-- A value without the quotes around it. -/
def unquote (value : List Char) : List Char :=
  let value := Text.trim value
  match value with
  | q :: rest@(_ :: _) =>
    if (q = '"' ∨ q = Char.ofNat 0x27) ∧ rest.getLast? = some q then rest.dropLast else value
  | _ => value

/-- One line of a file of variables: a variable, or nothing. -/
def readLine (number : Nat) (line : List Char) : Except ConfigError (Option (String × String)) :=
  let line := Text.trim line
  match line with
  | [] => .ok none
  | '#' :: _ => .ok none
  | _ =>
    match Text.splitAt? '=' line with
    | none => .error (.malformedLine number)
    | some (key, value) =>
      match Text.trim key with
      | [] => .error (.emptyKey number)
      | key => .ok (some (String.ofList key, String.ofList (unquote value)))

namespace Environment

/-- Reads lines from a number on. -/
def readLines (env : Environment) : Nat → List (List Char) → Except ConfigError Environment
  | _, [] => .ok env
  | number, line :: rest => do
    match ← readLine number line with
    | some pair => readLines (pair :: env) (number + 1) rest
    | none => readLines env (number + 1) rest

/-- Reads a file of variables over those that are there. -/
def read (env : Environment) (content : String) : Except ConfigError Environment :=
  env.readLines 1 (Text.splitOn '\n' content.toList)

/-- A variable that has to have a value. -/
def required (env : Environment) (name : String) : Except ConfigError String :=
  match List.lookup name env with
  | some "" => .error (.missingVariable name)
  | some value => .ok value
  | none => .error (.missingVariable name)

/-- The configuration that variables hold. -/
def config (env : Environment) : Except ConfigError Config := do
  let name ← env.required dialectVariable
  match Dialect.ofText? name with
  | none => throw (.unsupportedDialect name)
  | some dialect => return ⟨dialect, ← env.required connectionVariable⟩

end Environment

/-! ### Documents -/

namespace Config

/-- The only value of a field; a repeated field has none. -/
def only? (name : String) (fields : List (String × Json)) : Option Json :=
  match fields.filter fun f => f.1 = name with
  | [f] => some f.2
  | _ => none

def ofJson? (j : Json) : Option Config := do
  let (dialect, connection) ← match j with
    | .obj fields => do pure (← only? "dialect" fields, ← only? "connection_string" fields)
    | .arr [d, c] => some (d, c)
    | _ => none
  return ⟨← Dialect.ofJson? dialect, ← connection.str?⟩

/-- Reads a document. Fields that say nothing of the configuration are passed over. -/
def ofText? (s : String) : Option Config :=
  (Json.parseFields? ["dialect", "connection_string"] s).bind ofJson?

def toJson (c : Config) : Json :=
  .obj [("dialect", .str c.dialect.code), ("connection_string", .str c.connectionString)]

end Config

end EntityQuery.Provider
