import DexIndex.Proofs.Store.Mirror
import DexIndex.Proofs.Time.Text

/-!
# Commands as a server carries them out

A server reads the words of a command (`Command.read?`) and keeps a set or a hash under each name
(`Keyspace`). Commands that come after MULTI wait until EXEC, which carries them out together. Whatever
part of the commands of several batches it has received, the server keeps just the batches whose
transactions are whole (`Session.receiveAll?_take`), and it answers the commands of a client as the table
of these batches does (`Client.reads_as_table`).
-/

namespace DexIndex.SortedSet

/-! ### Words -/

def Bound.read? : Bytes → Option Bound
  | [0x2d] => some .lowest
  | [0x2b] => some .highest
  | 0x5b :: m => some (.including m)
  | 0x28 :: m => some (.excluding m)
  | _ => none

@[simp] theorem Bound.read?_encode (b : Bound) : read? b.encode = some b := by
  cases b <;> rfl

/-- The count that a word writes in decimal digits, which must fit a signed word. -/
def readCount? (word : Bytes) : Option Nat :=
  (Utf8.decode? word).bind fun s => (Text.decimal? s.toList).filter (· ≤ Client.maxCount)

theorem readCount?_encode {n : Nat} (h : n ≤ Client.maxCount) :
    readCount? (Utf8.encode (toString n)) = some n := by
  have hdigits : Text.decimal? (toString n).toList = some n := by
    have hpadded := Text.decimal?_padded 0 n
    rwa [Text.toList_padded, Nat.zero_sub, List.replicate_zero, List.nil_append,
      ← Nat.toList_repr] at hpadded
  rw [readCount?, Utf8.decode?_encode, Option.bind_some, hdigits, Option.filter_some, if_pos]
  simpa using h

namespace Command

/-- The command that a name and its arguments write. All members have the score zero. -/
def read? : String × List Bytes → Option Command
  | ("HGET", [hash, field]) => some (.hget hash field)
  | ("HMGET", hash :: field :: fields) => some (.hmget hash (field :: fields))
  | ("ZRANGEBYLEX", [set, lower, upper, limit, offset, count]) =>
    if limit = Utf8.encode "LIMIT" ∧ offset = Utf8.encode "0" then do
      some (.zrangebylex set (← Bound.read? lower) (← Bound.read? upper) (← readCount? count))
    else none
  | ("MULTI", []) => some .multi
  | ("EXEC", []) => some .exec
  | ("ZADD", [set, score, member]) =>
    if score = Utf8.encode "0" then some (.zadd set member) else none
  | ("HSET", [hash, field, value]) => some (.hset hash field value)
  | _ => none

/-- What a command must ask for to be read: at least one field, and no more than can be counted. -/
def IsProper : Command → Prop
  | hmget _ fields => fields ≠ []
  | zrangebylex _ _ _ count => count ≤ Client.maxCount
  | _ => True

inductive IsWrite : Command → Prop
  | zadd (set member : Bytes) : IsWrite (.zadd set member)
  | hset (hash field value : Bytes) : IsWrite (.hset hash field value)

theorem IsWrite.isProper {cmd : Command} (h : cmd.IsWrite) : cmd.IsProper := by
  cases h <;> exact trivial

theorem read?_words {cmd : Command} (h : cmd.IsProper) : read? cmd.words = some cmd := by
  cases cmd with
  | hmget hash fields =>
    cases fields with
    | nil => exact absurd rfl h
    | cons field fields => rfl
  | zrangebylex set lower upper count =>
    have hcount := readCount?_encode (show count ≤ Client.maxCount from h)
    simp only [words, read?, and_self, if_true, Bound.read?_encode, hcount]
    rfl
  | zadd set member => simp [words, read?]
  | _ => rfl

end Command

/-! ### Names -/

inductive Value
  | set (members : List Bytes)
  | hash (fields : List (Bytes × Bytes))

abbrev Keyspace := Bytes → Option Value

inductive Reply
  | value (value : Option Bytes)
  | values (values : List (Option Bytes))
  | members (members : List Bytes)
deriving DecidableEq

namespace Keyspace

def empty : Keyspace := fun _ => none

/-- The members of the set under a name. Where there is nothing, this is the empty set. -/
def members? (k : Keyspace) (name : Bytes) : Option (List Bytes) :=
  match k name with
  | none => some []
  | some (.set members) => some members
  | some (.hash _) => none

/-- The fields of the hash under a name. Where there is nothing, this is the empty hash. -/
def fields? (k : Keyspace) (name : Bytes) : Option (List (Bytes × Bytes)) :=
  match k name with
  | none => some []
  | some (.hash fields) => some fields
  | some (.set _) => none

@[simp] theorem members?_update_self (k : Keyspace) (name : Bytes) (ms : List Bytes) :
    members? (Function.update k name (some (.set ms))) name = some ms := by
  simp [members?]

@[simp] theorem fields?_update_self (k : Keyspace) (name : Bytes) (fs : List (Bytes × Bytes)) :
    fields? (Function.update k name (some (.hash fs))) name = some fs := by
  simp [fields?]

theorem members?_update_of_ne {name other : Bytes} (h : name ≠ other) (k : Keyspace)
    (v : Option Value) : members? (Function.update k other v) name = k.members? name := by
  rw [members?, Function.update_of_ne h, members?]

theorem fields?_update_of_ne {name other : Bytes} (h : name ≠ other) (k : Keyspace)
    (v : Option Value) : fields? (Function.update k other v) name = k.fields? name := by
  rw [fields?, Function.update_of_ne h, fields?]

/-- What a server keeps after a command, unless the command fails. -/
def run? (k : Keyspace) : Command → Option Keyspace
  | .zadd set member => do
    some (Function.update k set (some (.set (Server.insertMember member (← k.members? set)))))
  | .hset hash field value => do
    some (Function.update k hash
      (some (.hash ((Server.mk [] (← k.fields? hash)).hset field value).values)))
  | .multi | .exec => none
  | .hget .. | .hmget .. | .zrangebylex .. => some k

/-- What a server answers to a command that reads. -/
def reply? (k : Keyspace) : Command → Option Reply
  | .hget hash field => do some (.value ((Server.mk [] (← k.fields? hash)).hget field))
  | .hmget hash fields => do some (.values ((Server.mk [] (← k.fields? hash)).hmget fields))
  | .zrangebylex set lower upper count => do
    some (.members ((Server.mk (← k.members? set) []).zrangebylex lower upper count))
  | _ => none

end Keyspace

/-- A server and the commands of a transaction that wait, if one was opened. -/
structure Session where
  space : Keyspace
  waiting : Option (List Command)

namespace Session

def start : Session := ⟨.empty, none⟩

/-- What comes of a command, unless the server refuses it. -/
def receive? (s : Session) (words : String × List Bytes) : Option Session := do
  match ← Command.read? words, s.waiting with
  | .multi, none => some { s with waiting := some [] }
  | .exec, some commands => some ⟨← commands.foldlM Keyspace.run? s.space, none⟩
  | .multi, some _ | .exec, none => none
  | cmd, some commands => some { s with waiting := some (commands ++ [cmd]) }
  | cmd, none => some { s with space := ← s.space.run? cmd }

def receiveAll? (s : Session) (commands : List Command) : Option Session :=
  commands.foldlM (fun s cmd => s.receive? cmd.words) s

@[simp] theorem receiveAll?_nil (s : Session) : s.receiveAll? [] = some s := rfl

theorem receiveAll?_cons (s : Session) (cmd : Command) (commands : List Command) :
    s.receiveAll? (cmd :: commands) = (s.receive? cmd.words).bind (·.receiveAll? commands) := rfl

theorem receiveAll?_append (s : Session) (a b : List Command) :
    s.receiveAll? (a ++ b) = (s.receiveAll? a).bind (·.receiveAll? b) :=
  List.foldlM_append

end Session

/-! ### Transactions -/

namespace Client
variable {c : Client}

/-- The commands of a transaction that writes a batch. -/
def rowCommands (c : Client) (batch : List Row) : List Command :=
  batch.flatMap fun (k, v) => [.zadd c.indexKey k, .hset c.valuesKey k v]

theorem rowCommands_cons (c : Client) (row : Row) (batch : List Row) :
    c.rowCommands (row :: batch) =
      .zadd c.indexKey row.1 :: .hset c.valuesKey row.1 row.2 :: c.rowCommands batch := rfl

theorem isWrite_of_mem_rowCommands (c : Client) {batch : List Row} {cmd : Command}
    (h : cmd ∈ c.rowCommands batch) : cmd.IsWrite := by
  obtain ⟨row, _, hcmd⟩ := List.mem_flatMap.mp h
  rcases List.mem_pair.mp hcmd with rfl | rfl
  · exact .zadd ..
  · exact .hset ..

theorem writeCommands_of_ne_nil (c : Client) {batch : List Row} (h : batch ≠ []) :
    c.writeCommands batch = .multi :: (c.rowCommands batch ++ [.exec]) := by
  unfold writeCommands
  rw [if_neg (by simpa using h)]
  rfl

theorem indexKey_ne_valuesKey (c : Client) : c.indexKey ≠ c.valuesKey := by
  intro h
  have htext : c.nameSpace ++ ":index" = c.nameSpace ++ ":values" :=
    Option.some.inj ((Utf8.decode?_encode _).symm.trans (Utf8.decode?_eq_some_iff.mpr h))
  have hlength := congrArg String.length htext
  rw [String.length_append, String.length_append] at hlength
  exact absurd (Nat.add_left_cancel hlength) (by decide)

end Client

/-- A keyspace that has what a server of a client has, under the names of the client. -/
structure Keyspace.Keeps (k : Keyspace) (c : Client) (s : Server) : Prop where
  members : k.members? c.indexKey = some s.members
  fields : k.fields? c.valuesKey = some s.values

namespace Keyspace.Keeps
variable {k : Keyspace} {c : Client} {s : Server}

theorem empty (c : Client) : Keyspace.empty.Keeps c .empty := ⟨rfl, rfl⟩

theorem zadd (h : k.Keeps c s) (m : Bytes) :
    ∃ k', k.run? (.zadd c.indexKey m) = some k' ∧ k'.Keeps c (s.zadd m) := by
  refine ⟨_, by simp only [run?, h.members]; rfl, members?_update_self .., ?_⟩
  -- the hash stands under another name
  rw [fields?_update_of_ne c.indexKey_ne_valuesKey.symm]
  exact h.fields

theorem hset (h : k.Keeps c s) (field value : Bytes) :
    ∃ k', k.run? (.hset c.valuesKey field value) = some k' ∧ k'.Keeps c (s.hset field value) := by
  refine ⟨_, by simp only [run?, h.fields]; rfl, ?_, fields?_update_self ..⟩
  rw [members?_update_of_ne c.indexKey_ne_valuesKey]
  exact h.members

theorem rows (h : k.Keeps c s) (batch : List Row) :
    ∃ k', (c.rowCommands batch).foldlM Keyspace.run? k = some k' ∧ k'.Keeps c (c.write s batch) := by
  induction batch generalizing k s with
  | nil => exact ⟨k, rfl, h⟩
  | cons row r ih =>
    obtain ⟨k₁, hadd, h₁⟩ := h.zadd row.1
    obtain ⟨k₂, hset, h₂⟩ := h₁.hset row.1 row.2
    obtain ⟨k', hrest, h'⟩ := ih h₂
    refine ⟨k', ?_, h'⟩
    rw [Client.rowCommands_cons, List.foldlM_cons, hadd]
    change List.foldlM Keyspace.run? k₁ _ = _
    rw [List.foldlM_cons, hset]
    exact hrest

end Keyspace.Keeps

namespace Session
variable {k : Keyspace} {c : Client} {s : Server}

theorem receiveAll?_waiting {commands : List Command} (h : ∀ cmd ∈ commands, cmd.IsWrite)
    (k : Keyspace) (waiting : List Command) :
    (Session.mk k (some waiting)).receiveAll? commands =
      some ⟨k, some (waiting ++ commands)⟩ := by
  induction commands generalizing waiting with
  | nil => rw [List.append_nil, receiveAll?_nil]
  | cons cmd rest ih =>
    obtain ⟨hcmd, hrest⟩ := List.forall_mem_cons.mp h
    have hreceive : (Session.mk k (some waiting)).receive? cmd.words =
        some ⟨k, some (waiting ++ [cmd])⟩ := by
      rw [receive?, Command.read?_words hcmd.isProper]
      cases hcmd <;> rfl
    rw [receiveAll?_cons, hreceive, Option.bind_some, ih hrest, List.append_assoc,
      List.singleton_append]

/-- A transaction that is not whole changes nothing. -/
theorem receiveAll?_take_writeCommands (k : Keyspace) (c : Client) (batch : List Row) {n : Nat}
    (h : n < (c.writeCommands batch).length) :
    ∃ waiting, (Session.mk k none).receiveAll? ((c.writeCommands batch).take n) =
      some ⟨k, waiting⟩ := by
  by_cases hbatch : batch = []
  · rw [hbatch] at h
    exact absurd h (Nat.not_lt_zero n)
  · rw [c.writeCommands_of_ne_nil hbatch] at h ⊢
    cases n with
    | zero => exact ⟨none, rfl⟩
    | succ n =>
      have hn : n ≤ (c.rowCommands batch).length := by simpa [Nat.lt_succ_iff] using h
      rw [List.take_succ_cons, List.take_append_of_le_length hn]
      refine ⟨some ([] ++ (c.rowCommands batch).take n), ?_⟩
      exact receiveAll?_waiting
        (fun cmd hcmd => c.isWrite_of_mem_rowCommands (List.mem_of_mem_take hcmd)) k []

/-- A whole transaction writes its batch. -/
theorem receiveAll?_writeCommands (h : k.Keeps c s) (batch : List Row) :
    ∃ k' : Keyspace, (Session.mk k none).receiveAll? (c.writeCommands batch) = some ⟨k', none⟩ ∧
      k'.Keeps c (c.write s batch) := by
  by_cases hbatch : batch = []
  · rw [hbatch]
    exact ⟨k, rfl, h⟩
  · obtain ⟨k', hrun, h'⟩ := h.rows batch
    refine ⟨k', ?_, h'⟩
    have hwrites : ∀ cmd ∈ c.rowCommands batch, cmd.IsWrite :=
      fun _ => c.isWrite_of_mem_rowCommands
    have hwaiting := receiveAll?_waiting hwrites k []
    rw [c.writeCommands_of_ne_nil hbatch]
    change (Session.mk k (some [])).receiveAll? (c.rowCommands batch ++ [.exec]) = _
    rw [receiveAll?_append, hwaiting, Option.bind_some, receiveAll?_cons, List.nil_append]
    change ((do some ⟨← (c.rowCommands batch).foldlM Keyspace.run? k, none⟩ : Option Session).bind _)
      = _
    rw [hrun]
    rfl

end Session

/-! ### Many batches -/

namespace Client
variable {c : Client}

/-- How many of the batches are whole when only so many of their commands were received. -/
def whole (c : Client) : (batches : List (List Row)) → (received : Nat) → Nat
  | [], _ => 0
  | batch :: rest, n =>
    if (c.writeCommands batch).length ≤ n then
      c.whole rest (n - (c.writeCommands batch).length) + 1
    else 0

theorem whole_mono (c : Client) (batches : List (List Row)) {m n : Nat} (h : m ≤ n) :
    c.whole batches m ≤ c.whole batches n := by
  induction batches generalizing m n with
  | nil => exact Nat.le_refl 0
  | cons batch rest ih =>
    unfold whole
    by_cases hm : (c.writeCommands batch).length ≤ m
    · rw [if_pos hm, if_pos (hm.trans h)]
      exact Nat.succ_le_succ (ih (Nat.sub_le_sub_right h _))
    · rw [if_neg hm]
      exact Nat.zero_le _

theorem whole_length (c : Client) (batches : List (List Row)) :
    c.whole batches (batches.flatMap c.writeCommands).length = batches.length := by
  induction batches with
  | nil => rfl
  | cons batch rest ih =>
    rw [List.flatMap_cons, List.length_append, whole, if_pos (Nat.le_add_right ..),
      Nat.add_sub_cancel_left, ih, List.length_cons]

end Client

/-- After any part of the commands of several batches, those whose transactions are whole are
written. -/
theorem Session.receiveAll?_take {k : Keyspace} {c : Client} {s : Server} (h : k.Keeps c s)
    (batches : List (List Row)) (n : Nat) :
    ∃ session : Session,
      (Session.mk k none).receiveAll? ((batches.flatMap c.writeCommands).take n) = some session ∧
        session.space.Keeps c ((batches.take (c.whole batches n)).foldl c.write s) := by
  induction batches generalizing k s n with
  | nil => exact ⟨_, by rw [List.flatMap_nil, List.take_nil, receiveAll?_nil], h⟩
  | cons batch rest ih =>
    rw [List.flatMap_cons, Client.whole]
    -- either the first batch is whole and the others get what is left, or the cut is within it
    split
    · next hn =>
      obtain ⟨k', hbatch, h'⟩ := receiveAll?_writeCommands h batch
      obtain ⟨session, hrest, hkeeps⟩ := ih h' (n - (c.writeCommands batch).length)
      refine ⟨session, ?_, hkeeps⟩
      rw [List.take_append, List.take_of_length_le hn, receiveAll?_append, hbatch]
      exact hrest
    · next hn =>
      obtain ⟨waiting, hpart⟩ := receiveAll?_take_writeCommands k c batch (Nat.not_le.mp hn)
      refine ⟨⟨k, waiting⟩, ?_, h⟩
      rw [List.take_append_of_le_length (Nat.le_of_not_le hn)]
      exact hpart

/-! ### Reading -/

/-- Whether the commands of a client that read are answered as a server of the client answers. Where
the client sends no command, there is nothing to answer. -/
structure Client.Serves (c : Client) (k : Keyspace) (s : Server) : Prop where
  get : ∀ key, (Command.read? (c.getCommand key).words).bind k.reply? = some (.value (c.get s key))
  keys : ∀ p limit, match c.keysCommand? p limit with
    | some cmd => (Command.read? cmd.words).bind k.reply? = some (.members (c.scanKeys s p limit))
    | none => c.scanKeys s p limit = []
  values : ∀ keys, match c.valuesCommand? keys with
    | some cmd => (Command.read? cmd.words).bind k.reply? = some (.values (s.hmget keys))
    | none => keys = []

theorem Keyspace.Keeps.serves {k : Keyspace} {c : Client} {s : Server} (h : k.Keeps c s) :
    c.Serves k s where
  get key := by
    have hproper : (c.getCommand key).IsProper := trivial
    rw [Command.read?_words hproper, Option.bind_some, Client.getCommand, Keyspace.reply?, h.fields]
    rfl
  keys p limit := by
    unfold Client.keysCommand? Client.scanKeys
    by_cases hzero : limit = 0
    · rw [if_pos hzero, if_pos hzero]
    · rw [if_neg hzero, if_neg hzero]
      have hproper : (Command.zrangebylex c.indexKey (Client.bounds p).1 (Client.bounds p).2
          (min limit Client.maxCount)).IsProper := Nat.min_le_right ..
      dsimp only
      rw [Command.read?_words hproper, Option.bind_some, Keyspace.reply?, h.members]
      rfl
  values keys := by
    unfold Client.valuesCommand?
    by_cases hkeys : keys = []
    · rw [if_pos (by simpa using hkeys)]
      exact hkeys
    · rw [if_neg (by simpa using hkeys)]
      have hproper : (Command.hmget c.valuesKey keys).IsProper := hkeys
      dsimp only
      rw [Command.read?_words hproper, Option.bind_some, Keyspace.reply?, h.fields]
      rfl

/-- A sorted set and a table to which the same batches were written answer alike: under a key the value
that was written last, and for a prefix the first rows in ascending order whose keys start with it, as
many as the limit allows. The limit of a sorted set stays at the bound of a signed word, which makes no
difference to an answer that has no more rows than such a word can count. Where more batches are
written between the two commands of a scan, each key that was found has a value, the one that was written
last. And all this is what a server answers that reads the commands word for word: whatever part of
them it has received, the batches whose transactions are whole are written, and nothing of any other. -/
theorem Client.reads_as_table (c : Client) (batches : List (List Row)) :
    (∀ key, c.get (c.written batches) key = (Table.ofBatches batches).get? key ∧
      (Table.ofBatches batches).get? key = batches.flatten.reverse.lookup key) ∧
    (∀ p : Bytes, ∃ rows : List Row,
      rows.Pairwise (fun a b => a.1 < b.1) ∧
      (∀ key value, (key, value) ∈ rows ↔
        batches.flatten.reverse.lookup key = some value ∧ p <+: key) ∧
      ∀ limit, (Table.ofBatches batches).scan p (some limit) = rows.take limit ∧
        c.scan (c.written batches) p limit = .ok (rows.take (min limit maxCount)) ∧
        (min limit rows.length ≤ maxCount →
          c.scan (c.written batches) p limit = .ok ((Table.ofBatches batches).scan p (some limit)))) ∧
    (∀ (later : List (List Row)) (p : Bytes) (limit : Nat), ∃ found : List Row,
      c.scanValues (c.written (batches ++ later)) (c.scanKeys (c.written batches) p limit) =
        .ok found ∧
      found.map (·.1) = c.scanKeys (c.written batches) p limit ∧
      ∀ row ∈ found, (batches ++ later).flatten.reverse.lookup row.1 = some row.2) ∧
    (∀ received, ∃ session : Session,
      Session.start.receiveAll? ((batches.flatMap c.writeCommands).take received) = some session ∧
      c.Serves session.space (c.written (batches.take (c.whole batches received)))) ∧
    (∀ m n, m ≤ n → c.whole batches m ≤ c.whole batches n) ∧
    c.whole batches (batches.flatMap c.writeCommands).length = batches.length := by
  have hmirror := Mirrors.written c batches
  refine ⟨fun key => ⟨hmirror.hget key, Table.get?_ofBatches batches key⟩, fun p => ?_,
    fun later p limit => ?_, fun received => ?_, fun _ _ => c.whole_mono batches,
    c.whole_length batches⟩
  · refine ⟨(Table.ofBatches batches).scan p none, Table.sorted_scan_none _ p, fun key value => ?_,
      fun limit => ⟨rfl, hmirror.scan_eq p limit, fun hcount => ?_⟩⟩
    · rw [Table.mem_scan_none, Table.get?_ofBatches]
    · rw [hmirror.scan_eq]
      change Except.ok (((Table.ofBatches batches).scan p none).take (min limit maxCount)) =
        .ok (((Table.ofBatches batches).scan p none).take limit)
      -- both limits are at least the number of rows, or they are the same
      congr 1
      rw [List.take_eq_take_iff]
      omega
  · obtain ⟨found, hvalues, hkeys, hfound⟩ := hmirror.scanValues_later (c := c) later p limit
    have hwritten : c.written (batches ++ later) = later.foldl c.write (c.written batches) :=
      List.foldl_append
    have htable : Table.ofBatches (batches ++ later) =
        later.foldl Table.insertAll (.ofBatches batches) := List.foldl_append
    refine ⟨found, hwritten ▸ hvalues, hkeys, fun row hrow => ?_⟩
    rw [← Table.get?_ofBatches, htable]
    exact hfound row hrow
  · obtain ⟨session, hreceived, hkeeps⟩ :=
      Session.receiveAll?_take (Keyspace.Keeps.empty c) batches received
    exact ⟨session, hreceived, hkeeps.serves⟩

namespace RepeatedKeys

def client : Client := ⟨"index"⟩

/-- Two keys are written twice, one of them in one batch; one batch is empty. -/
def batches : List (List Row) :=
  [[([0xff], [1]), ([1], [2]), ([0xff], [3])], [], [([0xff, 0xff], [4]), ([1], [5])]]

end RepeatedKeys

open RepeatedKeys in
/-- The greatest limit there is makes no difference to an answer of two rows. -/
theorem Client.reads_as_table_of_repeated_keys :
    client.get (client.written batches) [1] = some [5] ∧
      client.scan (client.written batches) [0xff] 18446744073709551615 =
        .ok [([0xff], [3]), ([0xff, 0xff], [4])] := by
  obtain ⟨hget, hscan, _⟩ := client.reads_as_table batches
  obtain ⟨rows, _, _, hrows⟩ := hscan [0xff]
  obtain ⟨htake, _, hsame⟩ := hrows 18446744073709551615
  have htable : (Table.ofBatches batches).scan [0xff] (some 18446744073709551615) =
      [([0xff], [3]), ([0xff, 0xff], [4])] := by
    decide +kernel
  have hcount : min 18446744073709551615 rows.length ≤ maxCount := by
    rw [← List.length_take, ← htake, htable]
    decide
  refine ⟨?_, htable ▸ hsame hcount⟩
  rw [(hget [1]).1, (hget [1]).2]
  decide +kernel

end DexIndex.SortedSet
