import CrystalLattice.Yaml.Node
import CrystalLattice.Decimal.Layout
import CrystalLattice.Quote
import CrystalLattice.Utf8

/-!
# Decoding nodes into typed values

Decoding walks the node tree along a schema. Values of the wrong type are collected as messages;
keys must be unique and records accept only their own fields. Aliases are followed with guards
against cycles and alias expansion, and `<<` merges other mappings.
-/

namespace CrystalLattice.Yaml

inductive Schema where
  | real
  | integer
  | text
  | list (item : Schema)
  | optional (item : Schema)
  | record (name : String) (fields : List (String × Schema))

/-- A decoded value. `absent` is an empty optional value or a missing list, which is not the
same as an empty list. A record holds the fields set so far. -/
inductive Datum where
  | real (x : Float)
  | integer (n : Int)
  | text (s : String)
  | absent
  | list (items : List Datum)
  | record (fields : List (String × Datum))
  deriving Inhabited

namespace Schema

def typeName : Schema → String
  | real => "float64"
  | integer => "int"
  | text => "string"
  | list s => "[]" ++ s.typeName
  | optional s => "*" ++ s.typeName
  | record name _ => name

def zero : Schema → Datum
  | real => .real 0
  | integer => .integer 0
  | text => .text ""
  | list _ => .absent
  | optional _ => .absent
  | record _ _ => .record []

end Schema

/-- A value decoded without a target type, as the keys of a mapping that holds a merge are
decoded: a null, a boolean, a signed or unsigned integer, a float, a string, a point in time, a
list, or a mapping, whose keys are all strings when `stringKeys` holds. -/
inductive Loose where
  | null
  | bool (b : Bool)
  | int (n : Int)
  | uint (n : Nat)
  | float (x : Float)
  | text (s : String)
  | time (t : Timestamp)
  | list (items : List Loose)
  | table (stringKeys : Bool) (entries : List (Loose × Loose))
  deriving Inhabited

def monthNames : List String :=
  ["January", "February", "March", "April", "May", "June", "July", "August", "September",
   "October", "November", "December"]

def daysFromEpoch (year month day : Nat) : Int :=
  let y : Int := if month ≤ 2 then (year : Int) - 1 else year
  let era := (if y ≥ 0 then y else y - 399) / 400
  let yoe := y - era * 400
  let m : Int := month
  let doy := (153 * (if m > 2 then m - 3 else m + 9) + 2) / 5 + (day : Int) - 1
  let doe := yoe * 365 + yoe / 4 - yoe / 100 + doy
  era * 146097 + doe - 719468

def Timestamp.instant (t : Timestamp) : Int :=
  daysFromEpoch t.year t.month t.day * 86400 + (t.hour * 3600 + t.minute * 60 + t.second : Nat) -
    t.offset.getD 0

/-- A timestamp as Go syntax writes a time: its fields and its location, which is UTC for `Z`
or no zone, the local zone (UTC) for a zero offset, and an unnamed zone for other offsets. -/
def Timestamp.goSyntax (t : Timestamp) : String :=
  let zone := match t.offset with
    | none => "time.UTC"
    | some 0 => "time.Local"
    | some _ => "time.Location(\"\")"
  "time.Date(" ++ ", ".intercalate [toString t.year, "time." ++ monthNames.getD (t.month - 1) "",
    toString t.day, toString t.hour, toString t.minute, toString t.second, toString t.nanos,
    zone] ++ ")"

def anyTypeName : String := "interface \x7b\x7d"

def listTypeName : String := "[]" ++ anyTypeName

def tableTypeName (stringKeys : Bool) : String :=
  "map[" ++ (if stringKeys then "string" else anyTypeName) ++ "]" ++ anyTypeName

namespace Loose

/-- The name of the type of a list or mapping, which cannot be a key of another mapping;
`none` for the values that can. -/
def unhashable? : Loose → Option String
  | list _ => some listTypeName
  | table stringKeys _ => some (tableTypeName stringKeys)
  | _ => none

/-- Whether two keys are the same key: values of one type that are equal, where a float NaN
is equal to nothing. Lists and mappings are never keys. -/
def sameKey : Loose → Loose → Bool
  | null, null => true
  | bool a, bool b => a == b
  | int a, int b => a == b
  | uint a, uint b => a == b
  | float a, float b => a == b
  | text a, text b => a == b
  | time a, time b => a == b && (a.offset == none || a.offset == some 0)
  | _, _ => false

/-- The place of a key's type in the order of keys: the null first, then strings, unsigned
integers, integers, floats, booleans and times. -/
def typeRank : Loose → Nat
  | null => 0
  | text _ => 1
  | uint _ => 2
  | int _ => 3
  | float _ => 4
  | bool _ => 5
  | time _ => 6
  | _ => 7

/-- Whether key `a` is written before key `b`: by type, then by value, a NaN before other
floats, and times by their nanoseconds before their instant. -/
def keyBefore (a b : Loose) : Bool :=
  match a, b with
  | bool x, bool y => !x && y
  | int x, int y => x < y
  | uint x, uint y => x < y
  | float x, float y => (x.isNaN && !y.isNaN) || x < y
  | text x, text y => x < y
  | time x, time y => x.nanos < y.nanos || (x.nanos = y.nanos && x.instant < y.instant)
  | _, _ => a.typeRank < b.typeRank

mutual

/-- A value as Go syntax writes it: strings quoted, unsigned integers in hexadecimal, a null
inside a list as an empty interface, and mappings with their keys in order. -/
def goSyntax : Loose → String
  | null => anyTypeName ++ "(nil)"
  | bool b => toString b
  | int n => toString n
  | uint n => "0x" ++ String.ofList (Nat.toDigits 16 n)
  | float x => Decimal.render x
  | text s => quoted s
  | time t => t.goSyntax
  | list items => listTypeName ++ "\x7b" ++ ", ".intercalate (goSyntaxItems items) ++ "\x7d"
  | table stringKeys entries =>
    let sorted := (goSyntaxEntries entries).mergeSort fun p q => !keyBefore q.1 p.1
    tableTypeName stringKeys ++ "\x7b" ++ ", ".intercalate (sorted.map (·.2)) ++ "\x7d"

def goSyntaxItems : List Loose → List String
  | [] => []
  | v :: rest => goSyntax v :: goSyntaxItems rest

def goSyntaxEntries : List (Loose × Loose) → List (Loose × String)
  | [] => []
  | (k, v) :: rest => (k, goSyntax k ++ ":" ++ goSyntax v) :: goSyntaxEntries rest

end

end Loose

def setEntry (table : List (Loose × Loose)) (k v : Loose) : List (Loose × Loose) :=
  if table.any (·.1.sameKey k) then table.map fun (k', v') => if k'.sameKey k then (k', v) else (k', v')
  else table ++ [(k, v)]

/-- The decoder state. The keys a merge must not override are one set shared by a mapping and the
mappings it merges; decoding the value of a key starts afresh with none. -/
structure Decoder where
  table : Array Node
  errors : Array String
  count : Nat
  aliasCount : Nat
  aliasDepth : Nat
  active : List Nat
  merged : Option (List Loose)

/-- Why decoding stopped: a problem with the document, which is reported as an error, or a
fault of the runtime under the decoder, which ends the program. -/
inductive Halt where
  | problem (message : String)
  | fault (message : String)

abbrev DecodeM := StateT Decoder (Except Halt)

def fail {β : Type} (message : String) : DecodeM β := throw (.problem message)

def allowedAliasRatio (count : Nat) : Float :=
  if count ≤ 400000 then 0.99
  else if count ≥ 4000000 then 0.10
  else 0.99 - 0.89 * (Float.ofNat (count - 400000) / 3600000)

/-- A text cut to at most ten bytes for a message: longer texts keep seven bytes and an
ellipsis; a character cut in two leaves a replacement character for each byte kept. -/
def clip (s : String) : String :=
  if s.utf8ByteSize ≤ 10 then s
  else
    let step (acc : String × Nat) (c : Char) : String × Nat :=
      let (out, used) := acc
      if used ≥ 7 then acc
      else if used + c.utf8Size ≤ 7 then (out.push c, used + c.utf8Size)
      else (out ++ String.ofList (List.replicate (7 - used) (Char.ofNat 0xFFFD)), 7)
    (s.toList.foldl step ("", 0)).1 ++ "..."

def typeError (n : Node) (tag : String) (s : Schema) : DecodeM Unit := do
  let tag := if n.tag ≠ "" then n.tag else tag
  let shown := if tag ≠ seqTag && tag ≠ mapTag then " \x60" ++ clip n.text ++ "\x60" else ""
  let msg := s!"line {n.line}: cannot unmarshal " ++ shortTag tag ++ shown ++ " into " ++
    s.typeName
  modify fun d => { d with errors := d.errors.push msg }

def report (msg : String) : DecodeM Unit := modify fun d => { d with errors := d.errors.push msg }

def base64Digit (c : Char) : Option Nat :=
  if 'A' ≤ c && c ≤ 'Z' then some (c.toNat - 65)
  else if 'a' ≤ c && c ≤ 'z' then some (c.toNat - 71)
  else if '0' ≤ c && c ≤ '9' then some (c.toNat + 4)
  else if c = '+' then some 62
  else if c = '/' then some 63
  else none

/-- Decode padded base64 text, line breaks ignored. The bytes need not be UTF-8: those that
are not stand for the replacement character. -/
def base64Decode (s : String) : Option String := do
  let cs := s.toList.filter fun c => c ≠ '\n' && c ≠ '\r'
  if cs.length % 4 ≠ 0 then none
  let groups := (List.range (cs.length / 4)).map fun i => (cs.drop (4 * i)).take 4
  let mut bytes : Array UInt8 := #[]
  let mut ended := false
  for g in groups do
    if ended then none
    match g with
    | [a, b, c, d] =>
      let a ← base64Digit a
      let b ← base64Digit b
      if c = '=' then
        if d ≠ '=' then none
        bytes := bytes.push (a * 4 + b / 16).toUInt8
        ended := true
      else
        let c ← base64Digit c
        if d = '=' then
          bytes := bytes.push (a * 4 + b / 16).toUInt8
          bytes := bytes.push ((b % 16) * 16 + c / 4).toUInt8
          ended := true
        else
          let d ← base64Digit d
          bytes := bytes.push (a * 4 + b / 16).toUInt8
          bytes := bytes.push ((b % 16) * 16 + c / 4).toUInt8
          bytes := bytes.push ((c % 4) * 64 + d).toUInt8
    | _ => none
  pure (Utf8.text bytes.toList)

/-- The integer a float converts to: truncated when it lies in the signed 64-bit range, the
least such integer otherwise. -/
def floatToInt (x : Float) : Int :=
  if -9223372036854775808 ≤ x && x < 9223372036854775808 then
    let w := x.toBits.toNat
    let e := w / Nat.pow 2 52 % Nat.pow 2 11
    let m := w % Nat.pow 2 52 + Nat.pow 2 52
    let mag : Nat := if e < 1075 then m / Nat.pow 2 (1075 - e) else m * Nat.pow 2 (e - 1075)
    let mag := if e = 0 then 0 else mag
    if w / Nat.pow 2 63 = 1 then -(mag : Int) else mag
  else -9223372036854775808

def decodeNull (s : Schema) (out : Datum) : Bool × Datum :=
  match s with
  | .list _ | .optional _ => (true, .absent)
  | _ => (false, out)

def decodeScalar (n : Node) (s : Schema) (out : Datum) : DecodeM (Bool × Datum) := do
  let (tag, resolved) ← if n.tag = strTag then pure (strTag, Resolved.str n.text)
    else match resolve n.tag n.text with
      | .ok r => pure r
      | .error e => fail e
  let resolved ← if tag = binaryTag then
      match resolved with
      | .str t => match base64Decode t with
        | some b => pure (Resolved.str b)
        | none => fail "!!binary value contains invalid base64 data"
      | r => pure r
    else pure resolved
  if let .null := resolved then return decodeNull s out
  match s, resolved with
  | .text, .str t => return (true, .text (if tag = binaryTag then t else n.text))
  | .text, _ => return (true, .text n.text)
  | .integer, .int k => return (true, .integer k)
  | .integer, .float x =>
    if x ≤ 9223372036854775808 then return (true, .integer (floatToInt x))
  | .real, .int k => return (true, .real (Float.ofInt k))
  | .real, .uint k => return (true, .real (Float.ofNat k))
  | .real, .float x => return (true, .real x)
  | _, _ => pure ()
  typeError n tag s
  pure (false, out)

def isMergeKey (n : Node) : Bool :=
  match n with
  | .scalar tag "<<" _ _ => tag = "" || tag = "!" || shortTag tag = mergeTag
  | _ => false

/-- The messages for keys that repeat an earlier key of the same mapping. -/
def duplicateKeys (entries : List (Node × Node)) : List String :=
  let keys := entries.map (·.1)
  (List.range keys.length).flatMap fun i =>
    let ki := keys.getD i default
    ((keys.drop (i + 1)).filter fun kj => kj.kindCode = ki.kindCode && kj.text = ki.text).map
      fun kj => s!"line {kj.line}: mapping key " ++ quoted kj.text ++
        s!" already defined at line {ki.line}"

def fieldOf (fields : List (String × Datum)) (name : String) (s : Schema) : Datum :=
  (fields.lookup name).getD s.zero

def setField (fields : List (String × Datum)) (name : String) (v : Datum) :
    List (String × Datum) :=
  (name, v) :: fields.filter (·.1 ≠ name)

def countStep : DecodeM Unit := do
  modify fun d => { d with count := d.count + 1,
                           aliasCount := if d.aliasDepth > 0 then d.aliasCount + 1 else d.aliasCount }
  let d ← get
  if d.aliasCount > 100 && d.count > 1000 &&
      Float.ofNat d.aliasCount / Float.ofNat d.count > allowedAliasRatio d.count then
    fail "document contains excessive aliasing"

def withAlias {β : Type} (name : String) (serial : Nat) (body : DecodeM β) : DecodeM β := do
  if (← get).active.contains serial then fail s!"anchor '{name}' value contains itself"
  modify fun d => { d with active := serial :: d.active, aliasDepth := d.aliasDepth + 1 }
  let r ← body
  modify fun d => { d with active := d.active.erase serial, aliasDepth := d.aliasDepth - 1 }
  pure r

def anchored (k : Nat) : DecodeM Node := do
  pure ((← get).table.getD k default)

def looseScalar (n : Node) : DecodeM Loose := do
  let (tag, resolved) ← if n.tag = strTag then pure (strTag, Resolved.str n.text)
    else match resolve n.tag n.text with
      | .ok r => pure r
      | .error e => fail e
  match resolved with
  | .null => pure .null
  | .bool b => pure (.bool b)
  | .int k => pure (.int k)
  | .uint k => pure (.uint k)
  | .float x => pure (.float x)
  | .timestamp t => pure (.time t)
  | .str t =>
    if tag = binaryTag then
      match base64Decode t with
      | some b => pure (.text b)
      | none => fail "!!binary value contains invalid base64 data"
    else pure (.text t)

def isStringKey (table : Array Node) (n : Node) : Bool :=
  let n := match n with
    | .reference _ k _ _ => table.getD k default
    | _ => n
  match n with
  | .scalar tag _ _ _ => tag = strTag || tag = mergeTag
  | _ => false

def hashFault (typeName : String) : String := "runtime error: hash of unhashable type " ++ typeName

/-- The fault of looking up a value of an unhashable type in an empty set, which is found
without hashing the value. -/
def emptyLookupFault (typeName : String) : String := "hash of unhashable type: " ++ typeName

/-- Check a key against the keys a merge must not override, and add it: `true` when it was
there already. A list or mapping cannot be looked up, which is a fault. -/
def markKey (seen : List Loose) (k : Loose) : DecodeM (Bool × List Loose) := do
  if let some name := k.unhashable? then
    throw (.fault (if seen.isEmpty then emptyLookupFault name else hashFault name))
  if seen.any (·.sameKey k) then pure (true, seen) else pure (false, seen ++ [k])

/-- Add a key to the keys a merge must not override. A list or mapping cannot be added, which
is a fault. -/
def rememberKey (k : Loose) : DecodeM Unit := do
  if let some name := k.unhashable? then throw (.fault (hashFault name))
  match (← get).merged with
  | none => pure ()
  | some seen =>
    let seen := if seen.any (·.sameKey k) then seen else seen ++ [k]
    modify fun d => { d with merged := some seen }

def wantMap {β : Type} : DecodeM β := fail "map merge requires map or sequence of maps as the value"

def mergeable (n : Node) : DecodeM Unit := do
  match n with
  | .mapping .. => pure ()
  | .reference _ k _ _ =>
    match ← anchored k with
    | .mapping .. => pure ()
    | _ => wantMap
  | _ => wantMap

mutual

def decodeNode : Nat → Node → Schema → Datum → DecodeM (Bool × Datum)
  | 0, _, _, _ => fail "document contains excessive aliasing"
  | fuel + 1, n, s, out => do
    countStep
    match n with
    | .reference name k serial _ => withAlias name serial do decodeNode fuel (← anchored k) s out
    | _ =>
      match s with
      | .optional inner =>
        if n.tag ≠ nullTag then
          let current := match out with
            | .absent => inner.zero
            | d => d
          decodeKind fuel n inner current
        else decodeKind fuel n s out
      | _ => decodeKind fuel n s out

def decodeKind : Nat → Node → Schema → Datum → DecodeM (Bool × Datum)
  | 0, _, _, _ => fail "document contains excessive aliasing"
  | fuel + 1, n, s, out =>
    match n with
    | .scalar .. => decodeScalar n s out
    | .sequence _ items _ =>
      match s with
      | .list item => do
        let kept ← decodeItems fuel items item #[]
        pure (true, .list kept.toList)
      | _ => do
        typeError n seqTag s
        pure (false, out)
    | .mapping _ entries _ => do
      let dups := duplicateKeys entries
      if !dups.isEmpty then
        modify fun d => { d with errors := d.errors ++ dups.toArray }
        return (false, out)
      match s with
      | .record name fields =>
        let current := match out with
          | .record fs => fs
          | _ => []
        let fs ← decodeRecord fuel entries name fields current
        pure (true, .record fs)
      | _ =>
        typeError n mapTag s
        pure (false, out)
    | .reference .. => pure (false, out)

def decodeItems : Nat → List Node → Schema → Array Datum → DecodeM (Array Datum)
  | 0, _, _, acc => pure acc
  | _, [], _, acc => pure acc
  | fuel + 1, n :: rest, s, acc => do
    let (good, d) ← decodeNode fuel n s s.zero
    decodeItems fuel rest s (if good then acc.push d else acc)

def decodeRecord : Nat → List (Node × Node) → String → List (String × Schema) →
    List (String × Datum) → DecodeM (List (String × Datum))
  | 0, _, _, _, current => pure current
  | fuel + 1, entries, name, fields, current => do
    let outer := (← get).merged
    modify fun d => { d with merged := none }
    let (current, _, mergeNode, outer) ← decodeFields fuel entries name fields current [] none outer
    modify fun d => { d with merged := outer }
    match mergeNode with
    | none => pure current
    | some m => decodeMerge fuel entries m name fields current

def decodeFields : Nat → List (Node × Node) → String → List (String × Schema) →
    List (String × Datum) → List String → Option Node → Option (List Loose) →
    DecodeM (List (String × Datum) × List String × Option Node × Option (List Loose))
  | 0, _, _, _, current, done, mergeNode, outer => pure (current, done, mergeNode, outer)
  | _, [], _, _, current, done, mergeNode, outer => pure (current, done, mergeNode, outer)
  | fuel + 1, (k, v) :: rest, name, fields, current, done, mergeNode, outer => do
    if isMergeKey k then
      return (← decodeFields fuel rest name fields current done (some v) outer)
    let (good, key) ← decodeNode fuel k .text (.text "")
    let sname := match key with
      | .text t => t
      | _ => ""
    if !good then
      return (← decodeFields fuel rest name fields current done mergeNode outer)
    let (skipIt, outer) ← match outer with
      | some seen => do
        let (there, seen) ← markKey seen (.text sname)
        pure (there, some seen)
      | none => pure (false, none)
    if skipIt then
      return (← decodeFields fuel rest name fields current done mergeNode outer)
    match fields.lookup sname with
    | some fs =>
      if done.contains sname then
        report s!"line {k.line}: field {sname} already set in type {name}"
        decodeFields fuel rest name fields current done mergeNode outer
      else
        let (_, value) ← decodeNode fuel v fs (fieldOf current sname fs)
        decodeFields fuel rest name fields (setField current sname value) (sname :: done)
          mergeNode outer
    | none =>
      report s!"line {k.line}: field {sname} not found in type {name}"
      decodeFields fuel rest name fields current done mergeNode outer

/-- Merge the mappings named by a merge key into a record, under the keys of the mapping
that holds the merge key. The first merge of a mapping collects those keys; merges it
reaches share them. -/
def decodeMerge : Nat → List (Node × Node) → Node → String → List (String × Schema) →
    List (String × Datum) → DecodeM (List (String × Datum))
  | 0, _, _, _, _, current => pure current
  | fuel + 1, parent, m, name, fields, current => do
    let saved := (← get).merged
    if saved.isNone then
      modify fun d => { d with merged := some [] }
      rememberKeys fuel parent
    let schema := Schema.record name fields
    let out ← match m with
      | .sequence _ items _ => decodeMergeItems fuel items schema (.record current)
      | _ => do
        mergeable m
        let (_, out) ← decodeNode fuel m schema (.record current)
        pure out
    modify fun d => { d with merged := if saved.isNone then none else d.merged }
    pure (match out with
      | .record fs => fs
      | _ => current)

def decodeMergeItems : Nat → List Node → Schema → Datum → DecodeM Datum
  | 0, _, _, out => pure out
  | _, [], _, out => pure out
  | fuel + 1, n :: rest, s, out => do
    mergeable n
    let (_, out) ← decodeNode fuel n s out
    decodeMergeItems fuel rest s out

def rememberKeys : Nat → List (Node × Node) → DecodeM Unit
  | 0, _ => pure ()
  | _, [] => pure ()
  | fuel + 1, (k, _) :: rest => do
    if let some v ← decodeAny fuel k then rememberKey v
    rememberKeys fuel rest

/-- Decode a node without a target type; `none` when no value is set, which happens only for
a mapping with a repeated key. -/
def decodeAny : Nat → Node → DecodeM (Option Loose)
  | 0, _ => fail "document contains excessive aliasing"
  | fuel + 1, n => do
    countStep
    match n with
    | .reference name k serial _ => withAlias name serial do decodeAny fuel (← anchored k)
    | .scalar .. => some <$> looseScalar n
    | .sequence _ items _ => do
      let kept ← decodeAnyItems fuel items
      pure (some (.list kept))
    | .mapping _ entries _ => do
      let dups := duplicateKeys entries
      if !dups.isEmpty then
        modify fun d => { d with errors := d.errors ++ dups.toArray }
        return none
      let table := (← get).table
      let stringKeys := entries.all fun (k, _) => isStringKey table k
      let t ← decodeTable fuel entries stringKeys []
      pure (some (.table stringKeys t))

def decodeAnyItems : Nat → List Node → DecodeM (List Loose)
  | 0, _ => pure []
  | _, [] => pure []
  | fuel + 1, n :: rest => do
    let v ← decodeAny fuel n
    let vs ← decodeAnyItems fuel rest
    pure (match v with
      | some v => v :: vs
      | none => vs)

/-- Decode the entries of a mapping into a mapping of untyped values, then apply a merge.
Keys are read as strings when the mapping holds only strings. -/
def decodeTable : Nat → List (Node × Node) → Bool → List (Loose × Loose) →
    DecodeM (List (Loose × Loose))
  | 0, _, _, t => pure t
  | fuel + 1, entries, stringKeys, t => do
    let outer := (← get).merged
    modify fun d => { d with merged := none }
    let (t, mergeNode, outer) ← decodeEntries fuel entries stringKeys t none outer
    modify fun d => { d with merged := outer }
    match mergeNode with
    | none => pure t
    | some m => decodeTableMerge fuel entries m stringKeys t

/-- Decode the entries of a mapping one by one into a mapping of untyped values. A key that is
a list or a mapping is refused. -/
def decodeEntries : Nat → List (Node × Node) → Bool → List (Loose × Loose) → Option Node →
    Option (List Loose) → DecodeM (List (Loose × Loose) × Option Node × Option (List Loose))
  | 0, _, _, t, mergeNode, outer => pure (t, mergeNode, outer)
  | _, [], _, t, mergeNode, outer => pure (t, mergeNode, outer)
  | fuel + 1, (k, v) :: rest, stringKeys, t, mergeNode, outer => do
    if isMergeKey k then
      return (← decodeEntries fuel rest stringKeys t (some v) outer)
    let key ← if stringKeys then do
        let (good, d) ← decodeNode fuel k .text (.text "")
        pure (match good, d with
          | true, .text s => some (Loose.text s)
          | _, _ => none)
      else decodeAny fuel k
    match key with
    | none => decodeEntries fuel rest stringKeys t mergeNode outer
    | some key =>
      let (skipIt, outer) ← match outer with
        | some seen => do
          let (there, seen) ← markKey seen key
          pure (there, some seen)
        | none => pure (false, none)
      if skipIt then
        return (← decodeEntries fuel rest stringKeys t mergeNode outer)
      if key.unhashable?.isSome then fail ("invalid map key: " ++ key.goSyntax)
      match ← decodeAny fuel v with
      | some value => decodeEntries fuel rest stringKeys (setEntry t key value) mergeNode outer
      | none => decodeEntries fuel rest stringKeys t mergeNode outer

def decodeTableMerge : Nat → List (Node × Node) → Node → Bool → List (Loose × Loose) →
    DecodeM (List (Loose × Loose))
  | 0, _, _, _, t => pure t
  | fuel + 1, parent, m, stringKeys, t => do
    let saved := (← get).merged
    if saved.isNone then
      modify fun d => { d with merged := some [] }
      rememberKeys fuel parent
    let t ← match m with
      | .sequence _ items _ => decodeTableItems fuel items stringKeys t
      | _ => do
        mergeable m
        decodeInto fuel m stringKeys t
    modify fun d => { d with merged := if saved.isNone then none else d.merged }
    pure t

def decodeTableItems : Nat → List Node → Bool → List (Loose × Loose) →
    DecodeM (List (Loose × Loose))
  | 0, _, _, t => pure t
  | _, [], _, t => pure t
  | fuel + 1, n :: rest, stringKeys, t => do
    mergeable n
    let t ← decodeInto fuel n stringKeys t
    decodeTableItems fuel rest stringKeys t

def decodeInto : Nat → Node → Bool → List (Loose × Loose) → DecodeM (List (Loose × Loose))
  | 0, _, _, _ => fail "document contains excessive aliasing"
  | fuel + 1, n, stringKeys, t => do
    countStep
    match n with
    | .reference name k serial _ => withAlias name serial do decodeInto fuel (← anchored k) stringKeys t
    | .mapping _ entries _ =>
      let dups := duplicateKeys entries
      if !dups.isEmpty then
        modify fun d => { d with errors := d.errors ++ dups.toArray }
        return t
      decodeTable fuel entries stringKeys t
    | _ => pure t

end

/-- Why a document could not be decoded: a problem reading it, values of the wrong type, or a
fault of the runtime. -/
inductive DecodeFailure where
  | problem (message : String)
  | types (errors : List String)
  | fault (message : String)

/-- Decode the first document of a text into a schema; `none` when there is no document. -/
def decodeFirst (text : String) (s : Schema) : Except DecodeFailure (Option Datum) :=
  match firstDocument text with
  | .error e => .error (.problem e)
  | .ok none => .ok none
  | .ok (some (root, table)) =>
    let fuel := 32 * (text.length + 16)
    let start : Decoder := ⟨table, #[], 1, 0, 0, [], none⟩
    match (decodeNode fuel root s s.zero).run start with
    | .error (.problem e) => .error (.problem e)
    | .error (.fault message) => .error (.fault message)
    | .ok ((_, d), st) => if st.errors.isEmpty then .ok (some d) else .error (.types st.errors.toList)

end CrystalLattice.Yaml
