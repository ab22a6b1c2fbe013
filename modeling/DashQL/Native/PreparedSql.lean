import DashQL.Native.StreamManagers

/-!
# The parameters of a prepared statement

A prepared statement is a text in which `$1`, `$2` and so on are replaced by literals when it is
run.  The text is read byte by byte.
-/

namespace DashQL.Native

structure ConnectionId where
  databaseId : ℕ
  connectionId : ℕ
  deriving DecidableEq

/-- The statuses of the DuckDB proxy. -/
inductive DuckDBStatus where
  | connectionBusy (connection : ConnectionId) (activity : String)
  | connectionIdIsUnknown (connection : ConnectionId)
  | databaseIdIsUnknown (databaseId : ℕ)
  | operationFailed (operation message : String)
  | streamIdIsUnknown (connection : ConnectionId) (streamId : ℕ)
  | streamReadTimedOut (connection : ConnectionId) (streamId : ℕ)
  | uploadIdIsUnknown (connection : ConnectionId) (uploadId : ℕ)
  deriving DecidableEq

inductive JsonValue where
  | null
  | bool (value : Bool)
  | number (text : String)
  | string (value : String)
  | array (values : List JsonValue)
  | object (fields : List (String × JsonValue))

/-- Reading and writing JSON. -/
structure Serde where
  fromText : String → Except String JsonValue
  toText : JsonValue → String

def quoteSql (text : String) : String := "'" ++ text.replace "'" "''" ++ "'"

def encodeSqlLiteral (serde : Serde) : JsonValue → String
  | .null => "NULL"
  | .bool value => if value then "TRUE" else "FALSE"
  | .number text => text
  | .string value => quoteSql value
  | .array values => quoteSql (serde.toText (.array values))
  | .object fields => quoteSql (serde.toText (.object fields))

def decodePreparedParams (serde : Serde) (paramsJson : String) :
    Except DuckDBStatus (List JsonValue) :=
  match serde.fromText paramsJson with
  | .error message => .error (.operationFailed "decode prepared params" message)
  | .ok (.array values) => .ok values
  | .ok (.object _) => .ok []
  | .ok .null => .ok []
  | .ok other => .ok [other]

def isAsciiDigit (byte : UInt8) : Bool := 48 ≤ byte && byte ≤ 57

/-- The number of a parameter; one that does not fit is zero. -/
def paramIndex (digits : List UInt8) : ℕ :=
  let index := digits.foldl (fun index digit => 10 * index + (digit.toNat - 48)) 0
  if index < 2 ^ 64 then index else 0

/-- What stands for a dollar sign and the digits behind it. -/
def substituteParam (serde : Serde) (params : List JsonValue) (digits : List UInt8) :
    Except DuckDBStatus String :=
  match digits with
  | [] => .ok "$"
  | _ :: _ =>
    let index := paramIndex digits
    match index, params[index - 1]? with
    | _ + 1, some param => .ok (encodeSqlLiteral serde param)
    | _, _ =>
      .error (.operationFailed "substitute prepared params"
        ("missing value for parameter $" ++ toString index))

/-- Substitute in the bytes that are left, with the digits since a dollar sign. -/
def substituteFrom (serde : Serde) (params : List JsonValue) :
    Option (List UInt8) → List UInt8 → Except DuckDBStatus String
  | none, [] => .ok ""
  | some digits, [] => substituteParam serde params digits
  | none, byte :: bytes =>
    if byte = 36 then
      substituteFrom serde params (some []) bytes
    else do
      let back ← substituteFrom serde params none bytes
      .ok (String.singleton (Char.ofNat byte.toNat) ++ back)
  | some digits, byte :: bytes =>
    if isAsciiDigit byte then
      substituteFrom serde params (some (digits ++ [byte])) bytes
    else do
      let param ← substituteParam serde params digits
      if byte = 36 then do
        let back ← substituteFrom serde params (some []) bytes
        .ok (param ++ back)
      else do
        let back ← substituteFrom serde params none bytes
        .ok (param ++ (String.singleton (Char.ofNat byte.toNat) ++ back))

def substitutePreparedSql (serde : Serde) (sql paramsJson : String) :
    Except DuckDBStatus String := do
  let params ← decodePreparedParams serde paramsJson
  substituteFrom serde params none sql.toUTF8.toList

end DashQL.Native
