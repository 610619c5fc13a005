import DexIndex.Store.Address
import DexIndex.Store.Basic

/-!
# Stores on a sorted set

A table kept on a server of sorted sets and hashes: the keys are the members of one sorted set, in
which all members have the same score and so stand in byte order, and the values stand in a hash
under the keys. A batch is written in one transaction. A scan asks for the keys first and then for
their values.
-/

namespace DexIndex.SortedSet

inductive Bound
  | lowest
  | highest
  | including (member : Bytes)
  | excluding (member : Bytes)
deriving DecidableEq

namespace Bound

def encode : Bound → Bytes
  | lowest => [0x2d]
  | highest => [0x2b]
  | including m => 0x5b :: m
  | excluding m => 0x28 :: m

/-- Whether a member lies above this lower end. -/
def below (member : Bytes) : Bound → Bool
  | lowest => true
  | highest => false
  | including m => m ≤ member
  | excluding m => m < member

/-- Whether a member lies below this upper end. -/
def above (member : Bytes) : Bound → Bool
  | lowest => false
  | highest => true
  | including m => member ≤ m
  | excluding m => member < m

end Bound

inductive Command
  | hget (hash field : Bytes)
  | hmget (hash : Bytes) (fields : List Bytes)
  | zrangebylex (set : Bytes) (lower upper : Bound) (count : Nat)
  | multi
  | exec
  | zadd (set member : Bytes)
  | hset (hash field value : Bytes)
deriving DecidableEq

/-- A command as it is sent: its name and its arguments. -/
def Command.words : Command → String × List Bytes
  | hget hash field => ("HGET", [hash, field])
  | hmget hash fields => ("HMGET", hash :: fields)
  | zrangebylex set lower upper count =>
    ("ZRANGEBYLEX", [set, lower.encode, upper.encode, Utf8.encode "LIMIT", Utf8.encode "0",
      Utf8.encode (toString count)])
  | multi => ("MULTI", [])
  | exec => ("EXEC", [])
  | zadd set member => ("ZADD", [set, Utf8.encode "0", member])
  | hset hash field value => ("HSET", [hash, field, value])

/-- A server with one sorted set, given by its members in ascending order, and one hash. -/
structure Server where
  members : List Bytes
  values : List (Bytes × Bytes)
deriving DecidableEq

namespace Server

def empty : Server := ⟨[], []⟩

/-- Adds a member in its place, unless it is there. -/
def insertMember (m : Bytes) : List Bytes → List Bytes
  | [] => [m]
  | m' :: r => if m < m' then m :: m' :: r else if m = m' then m' :: r else m' :: insertMember m r

def zadd (s : Server) (m : Bytes) : Server := { s with members := insertMember m s.members }

def hset (s : Server) (field value : Bytes) : Server :=
  { s with values := (field, value) :: s.values.filter (·.1 != field) }

def hget (s : Server) (field : Bytes) : Option Bytes := s.values.lookup field

def hmget (s : Server) (fields : List Bytes) : List (Option Bytes) := fields.map s.hget

/-- The first `count` members between two ends. -/
def zrangebylex (s : Server) (lower upper : Bound) (count : Nat) : List Bytes :=
  (s.members.filter fun m => lower.below m && upper.above m).take count

end Server

/-- The store of one namespace. -/
structure Client where
  nameSpace : String
deriving DecidableEq

namespace Client

def indexKey (c : Client) : Bytes := Utf8.encode (c.nameSpace ++ ":index")

def valuesKey (c : Client) : Bytes := Utf8.encode (c.nameSpace ++ ":values")

/-- The largest count that a range can be limited to. -/
def maxCount : Nat := 9223372036854775807

/-- The ends of the range of a prefix. -/
def bounds (p : Bytes) : Bound × Bound :=
  (if p.isEmpty then .lowest else .including p,
    match Table.upperBound? p with
    | some upper => .excluding upper
    | none => .highest)

/-- Opens the store of a namespace; `dial` looks for the server that listens at an endpoint. -/
def connect (dial : Endpoint → Except IoFault Server) (url nameSpace : String) :
    Except StoreError Client :=
  match Address.parse url with
  | .error fault => .error (.connection s!"Config: Redis: {fault.message}")
  | .ok address =>
    match dial address.endpoint with
    | .error fault =>
      .error (.connection s!"Error occurred while creating a new object: {fault.message}")
    | .ok _ => .ok ⟨nameSpace⟩

def getCommand (c : Client) (key : Bytes) : Command := .hget c.valuesKey key

def get (_ : Client) (s : Server) (key : Bytes) : Option Bytes := s.hget key

/-- Asks for the first keys with a prefix. No command is sent if none are wanted. -/
def keysCommand? (c : Client) (p : Bytes) (limit : Nat) : Option Command :=
  if limit = 0 then none
  else some (.zrangebylex c.indexKey (bounds p).1 (bounds p).2 (min limit maxCount))

def scanKeys (_ : Client) (s : Server) (p : Bytes) (limit : Nat) : List Bytes :=
  if limit = 0 then [] else s.zrangebylex (bounds p).1 (bounds p).2 (min limit maxCount)

/-- Asks for the values of the keys that were found. -/
def valuesCommand? (c : Client) (keys : List Bytes) : Option Command :=
  if keys.isEmpty then none else some (.hmget c.valuesKey keys)

/-- The rows of the keys that were found, whose values the server may have replaced since. -/
def scanValues (_ : Client) (s : Server) (keys : List Bytes) : Except StoreError (List Row) :=
  (keys.zip (s.hmget keys)).mapM fun
    | (key, some value) => .ok (key, value)
    | (key, none) => .error (.corrupt (.withoutValue key))

/-- The first rows with a prefix, as one server answers both commands. -/
def scan (c : Client) (s : Server) (p : Bytes) (limit : Nat) : Except StoreError (List Row) :=
  c.scanValues s (c.scanKeys s p limit)

/-- One transaction, and nothing for an empty batch. -/
def writeCommands (c : Client) (batch : List Row) : List Command :=
  if batch.isEmpty then []
  else
    .multi :: (batch.flatMap fun (k, v) => [.zadd c.indexKey k, .hset c.valuesKey k v]) ++ [.exec]

def write (_ : Client) (s : Server) (batch : List Row) : Server :=
  batch.foldl (fun s (k, v) => (s.zadd k).hset k v) s

end Client

end DexIndex.SortedSet
