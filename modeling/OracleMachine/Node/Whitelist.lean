import OracleMachine.Lib.Bytes
import OracleMachine.Lib.Text

/-!
# The list of nodes

`QUBIC_NODES` holds the IPv4 addresses that may connect.  `parseNodes` reads it when the
configuration is loaded, and `isNodeIPAllowed` is the filter of the node's server.

An address is written as four numbers with points between them (`Spells`).  The code
accepts more than that: `std::stoi` ignores what follows a number, the conversion to
`uint8_t` drops all but eight bits, and the loop over the octets stops after four.
`Reads` says what the code makes of an entry, and `parseNodes_eq_ok_iff` of the whole
list.

* `not_parseNodes_iff`: a list is refused as a whole when one of its entries is (`Refused`).
* `whitelist_admits_only_written_iff`: for which lists nothing else is loaded or admitted than
  what is written, and `whitelist_admits_unwritten` a list that admits another node.
* `whitelist_admits_printed`: a printed list is read back, and its nodes are admitted.
-/

namespace OracleMachine.Node.Whitelist

open Lib.Bytes Lib.Decimal Lib.Text

/-! ## The configuration -/

/-- `NodeEndpoint`, with its `std::array<uint8_t, 4>`. -/
structure NodeEndpoint where
  ip : List UInt8
  length_ip : ip.length = 4
  deriving DecidableEq

/-- The exceptions of `parseNodes`. -/
inductive LoadError where
  | stoi (e : StoiError)
  | runtimeError (what : Text)
  deriving DecidableEq

/-- The comma between entries. -/
def comma : UInt8 := 44

/-- The characters of `" \t"`. -/
def isBlank (c : UInt8) : Bool := c = 32 || c = 9

/-- The loop of `parseIpAddress` over the octets that are left. -/
def parseOctets : List Text → List UInt8 → Except LoadError (List UInt8)
  | [], ip => .ok ip
  | octet :: octets, ip =>
    if ip.length < 4 then
      match stoi octet with
      | .ok n => parseOctets octets (ip ++ [UInt8.ofInt n])
      | .error e => .error (.stoi e)
    else .ok ip

/-- `parseIpAddress`. -/
def parseIpAddress (ipStr : Text) : Except LoadError NodeEndpoint :=
  match parseOctets (getlines point ipStr) [] with
  | .error e => .error e
  | .ok ip =>
    if h : ip.length = 4 then .ok ⟨ip, h⟩
    else .error (.runtimeError (ascii "Invalid IP address format: " ++ ipStr))

/-- The loop of `parseNodes` over the entries that are left. -/
def parseEntries : List Text → Except LoadError (List NodeEndpoint)
  | [] => .ok []
  | ip :: rest =>
    let ip := trim isBlank ip
    if ip = [] then parseEntries rest
    else
      match parseIpAddress ip with
      | .error e => .error e
      | .ok node =>
        match parseEntries rest with
        | .error e => .error e
        | .ok nodes => .ok (node :: nodes)

/-- `parseNodes`. -/
def parseNodes (nodesStr : Text) : Except LoadError (List NodeEndpoint) :=
  parseEntries (getlines comma nodesStr)

/-- `NodeEndpoint::ipString`. -/
def NodeEndpoint.ipString (node : NodeEndpoint) : Text :=
  [point].intercalate (node.ip.map fun b => ofNat b.toNat)

/-- `Config::nodeCount`. -/
def nodeCount (nodes : List NodeEndpoint) : UInt32 := UInt32.ofNat nodes.length

/-! ## The filter -/

/-- `sockaddr_in`: the four bytes of the address in memory, which are in network order. -/
structure SockaddrIn where
  sAddr : List UInt8
  length_sAddr : sAddr.length = 4
  deriving DecidableEq

/-- `ntohl`. -/
def ntohl (bytes : List UInt8) : UInt32 := UInt32.ofNat (leVal bytes.reverse)

/-- `uint8_t ip[4]` of `isNodeIPAllowed`. -/
def octetsOf (ipAddr : UInt32) : List UInt8 :=
  [((ipAddr >>> 24) &&& 0xFF).toUInt8, ((ipAddr >>> 16) &&& 0xFF).toUInt8,
    ((ipAddr >>> 8) &&& 0xFF).toUInt8, (ipAddr &&& 0xFF).toUInt8]

/-- `isNodeIPAllowed`. -/
def isNodeIPAllowed (nodes : List NodeEndpoint) (addr : SockaddrIn) : Bool :=
  let ip := octetsOf (ntohl addr.sAddr)
  (nodes.take (nodeCount nodes).toNat).any fun acceptNode => ip = acceptNode.ip

theorem toNat_lowByte (x : UInt32) : (x &&& 0xFF).toUInt8.toNat = x.toNat % 256 := by
  have hand := Nat.and_two_pow_sub_one_eq_mod x.toNat 8
  rw [UInt32.toNat_toUInt8, UInt32.toNat_and, show (255 : UInt32).toNat = 2 ^ 8 - 1 from rfl, hand]
  omega

theorem toNat_shiftRight {k : UInt32} {n : Nat} (hk : k.toNat % 32 = n) (x : UInt32) :
    (x >>> k).toNat = x.toNat / 2 ^ n := by
  rw [UInt32.toNat_shiftRight, hk, Nat.shiftRight_eq_div_pow]

/-- The bytes are taken out in the order in which they travel. -/
theorem octetsOf_ntohl {bytes : List UInt8} (h : bytes.length = 4) :
    octetsOf (ntohl bytes) = bytes := by
  match bytes, h with
  | [a, b, c, d], _ =>
    have ha := a.toNat_lt
    have hb := b.toNat_lt
    have hc := c.toNat_lt
    have hd := d.toNat_lt
    have hvalue : (ntohl [a, b, c, d]).toNat =
        d.toNat + 256 * (c.toNat + 256 * (b.toNat + 256 * a.toNat)) := by
      rw [ntohl, UInt32.toNat_ofNat']
      show leVal [d, c, b, a] % _ = _
      simp only [leVal]
      omega
    simp only [octetsOf, List.cons.injEq, and_true, ← UInt8.toNat_inj, toNat_lowByte,
      @toNat_shiftRight 24 24 rfl, @toNat_shiftRight 16 16 rfl, @toNat_shiftRight 8 8 rfl, hvalue]
    omega

/-- The filter accepts the nodes whose position fits into the count of 32 bits. -/
theorem isNodeIPAllowed_iff {nodes : List NodeEndpoint} {addr : SockaddrIn} :
    isNodeIPAllowed nodes addr = true ↔
      ∃ node ∈ nodes.take (nodes.length % 2 ^ 32), node.ip = addr.sAddr := by
  simp only [isNodeIPAllowed, octetsOf_ntohl addr.length_sAddr, nodeCount, UInt32.toNat_ofNat',
    List.any_eq_true, decide_eq_true_eq]
  constructor
  · intro h
    obtain ⟨node, hnode, hip⟩ := h
    exact ⟨node, hnode, hip.symm⟩
  · intro h
    obtain ⟨node, hnode, hip⟩ := h
    exact ⟨node, hnode, hip.symm⟩

/-! ## What the code reads -/

/-- What the code takes for an octet: a number of an `int` at the start of the text, of
which eight bits are kept. -/
def ReadsOctet (octet : Text) (b : UInt8) : Prop :=
  ∃ n : Int, StartsWithInt octet n ∧ -2147483648 ≤ n ∧ n ≤ 2147483647 ∧ b = UInt8.ofInt n

/-- What the code takes for an address: the first four fields are octets. -/
def Reads (entry : Text) (ip : List UInt8) : Prop :=
  List.Forall₂ ReadsOctet ((entry.splitOn point).take 4) ip

theorem readsOctet_iff {octet : Text} {b : UInt8} :
    ReadsOctet octet b ↔ ∃ n, stoi octet = .ok n ∧ b = UInt8.ofInt n := by
  simp only [ReadsOctet, stoi_eq_ok_iff, and_assoc]

theorem not_readsOctet_nil (b : UInt8) : ¬ ReadsOctet [] b := by
  rw [readsOctet_iff]
  intro h
  obtain ⟨n, hn, -⟩ := h
  exact absurd hn (by simp [stoi, readSign])

theorem readsOctet_of_stoi {octet : Text} {n : Int} (h : stoi octet = .ok n) (b : UInt8) :
    ReadsOctet octet b ↔ b = UInt8.ofInt n := by
  rw [readsOctet_iff, h]
  simp

theorem parseOctets_eq_ok_iff {octets : List Text} {ip bytes : List UInt8}
    (hlen : ip.length ≤ 4) :
    parseOctets octets ip = .ok bytes ↔
      ∃ more, bytes = ip ++ more ∧
        List.Forall₂ ReadsOctet (octets.take (4 - ip.length)) more := by
  induction octets generalizing ip with
  | nil => simp [parseOctets, eq_comm]
  | cons octet octets ih =>
    rw [parseOctets]
    by_cases hlt : ip.length < 4
    · rw [if_pos hlt, show 4 - ip.length = (4 - (ip.length + 1)) + 1 by omega,
        List.take_succ_cons]
      simp only [List.forall₂_cons_left_iff]
      cases hstoi : stoi octet with
      | error e => simp [readsOctet_iff, hstoi]
      | ok n =>
        have hih := @ih (ip ++ [UInt8.ofInt n]) (by simp; omega)
        rw [List.length_append, List.length_singleton] at hih
        simp only [hih, readsOctet_of_stoi hstoi, List.append_assoc, List.singleton_append]
        constructor
        · intro h
          obtain ⟨more, rfl, hmore⟩ := h
          exact ⟨_, rfl, _, more, rfl, hmore, rfl⟩
        · intro h
          obtain ⟨_, rfl, _, more, rfl, hmore, rfl⟩ := h
          exact ⟨more, rfl, hmore⟩
    · rw [if_neg hlt, show 4 - ip.length = 0 by omega, List.take_zero]
      simp [eq_comm]

/-- `parseIpAddress` reads the first four fields. -/
theorem parseIpAddress_eq_ok_iff {entry : Text} {node : NodeEndpoint} :
    parseIpAddress entry = .ok node ↔ Reads entry node.ip := by
  have hfields := forall₂_take_getlines_iff not_readsOctet_nil point entry node.ip
  rw [node.length_ip] at hfields
  have hoctets : parseOctets (getlines point entry) [] = .ok node.ip ↔ Reads entry node.ip := by
    rw [parseOctets_eq_ok_iff (by simp), Reads, ← hfields]
    simp
  rw [← hoctets, parseIpAddress]
  cases hparse : parseOctets (getlines point entry) [] with
  | error e => simp
  | ok ip =>
    by_cases hlen : ip.length = 4
    · simp only [dif_pos hlen, Except.ok.injEq]
      constructor
      · intro h
        rw [← h]
      · intro h
        subst h
        rfl
    · simp only [dif_neg hlen, reduceCtorEq, Except.ok.injEq, false_iff]
      intro h
      exact hlen (h ▸ node.length_ip)

/-- A field without the blanks around it. -/
def strip (field : Text) : Text := (field.dropWhile isBlank).rdropWhile isBlank

/-- The entries of the list: the fields between commas that are not blank. -/
def entries (nodesStr : Text) : List Text :=
  ((nodesStr.splitOn comma).map strip).filter (· ≠ [])

theorem parseEntries_eq_ok_iff {fields : List Text} {nodes : List NodeEndpoint} :
    parseEntries fields = .ok nodes ↔
      List.Forall₂ (fun entry node => Reads entry node.ip)
        ((fields.map (trim isBlank)).filter (· ≠ [])) nodes := by
  induction fields generalizing nodes with
  | nil => simp [parseEntries, eq_comm]
  | cons field fields ih =>
    rw [parseEntries, List.map_cons]
    by_cases hblank : trim isBlank field = []
    · simp only [hblank, if_true, ih]
      simp
    · rw [List.filter_cons_of_pos (by simpa using hblank), List.forall₂_cons_left_iff]
      simp only [hblank, if_false, ← ih]
      simp only [← parseIpAddress_eq_ok_iff]
      cases parseIpAddress (trim isBlank field) with
      | error e => simp
      | ok node =>
        cases parseEntries fields with
        | error e => simp
        | ok rest => simp [eq_comm]

/-- `parseNodes` reads every entry. -/
theorem parseNodes_eq_ok_iff {nodesStr : Text} {nodes : List NodeEndpoint} :
    parseNodes nodesStr = .ok nodes ↔
      List.Forall₂ (fun entry node => Reads entry node.ip) (entries nodesStr) nodes := by
  have htrim : trim isBlank [] = [] := rfl
  have hentries : entries nodesStr =
      ((getlines comma nodesStr).map (trim isBlank)).filter (· ≠ []) := by
    have hstrip : strip = trim isBlank := funext fun field => (trim_eq field).symm
    rw [entries, hstrip]
    rcases splitOn_eq comma nodesStr with h | h
    · rw [h]
    · rw [h]
      simp [htrim]
  rw [parseNodes, parseEntries_eq_ok_iff, hentries]

/-! ## What is written in the list -/

/-- A run of digits that spells the octet. -/
def SpellsOctet (octet : Text) (b : UInt8) : Prop :=
  octet ≠ [] ∧ (∀ c ∈ octet, isDigit c = true) ∧ numeralFrom 0 octet = b.toNat

instance (octet : Text) (b : UInt8) : Decidable (SpellsOctet octet b) :=
  inferInstanceAs (Decidable (_ ∧ _ ∧ _))

/-- Four runs of digits with points between them that spell the address.  A value above
255 spells no octet. -/
def Spells (entry : Text) (ip : List UInt8) : Prop :=
  ip.length = 4 ∧ List.Forall₂ SpellsOctet (entry.splitOn point) ip

instance (entry : Text) (ip : List UInt8) : Decidable (Spells entry ip) :=
  inferInstanceAs (Decidable (_ ∧ _))

theorem readsOctet_of_spellsOctet {octet : Text} {b : UInt8} (h : SpellsOctet octet b) :
    ReadsOctet octet b := by
  obtain ⟨hne, hdigits, hvalue⟩ := h
  have hlt := b.toNat_lt
  refine ⟨b.toNat, ⟨[], [], octet, [], by simp, by simp, hne, hdigits, by simp, ?_⟩,
    by omega, by omega, ?_⟩
  · exact .inl ⟨.inl rfl, by rw [hvalue]⟩
  · have hmod : ((b.toNat : Int) % 2 ^ 8).toNat = b.toNat := by omega
    rw [UInt8.ofInt, hmod, UInt8.ofNat_toNat]

theorem reads_of_spells {entry : Text} {ip : List UInt8} (h : Spells entry ip) :
    Reads entry ip := by
  obtain ⟨hlen, hoctets⟩ := h
  rw [Reads, List.take_of_length_le (by rw [hoctets.length_eq, hlen])]
  exact hoctets.imp fun _ _ => readsOctet_of_spellsOctet

theorem spells_ne_nil {entry : Text} {ip : List UInt8} (h : Spells entry ip) : entry ≠ [] := by
  rintro rfl
  have hlen := h.2.length_eq
  rw [h.1] at hlen
  exact absurd hlen (by decide)

/-- An entry is read as one address. -/
theorem reads_unique {entry : Text} {ip ip' : List UInt8} (h : Reads entry ip)
    (h' : Reads entry ip') : ip = ip' := by
  refine List.right_unique_forall₂' ?_ h h'
  intro octet b b' hb hb'
  obtain ⟨n, hn, rfl⟩ := readsOctet_iff.mp hb
  exact ((readsOctet_of_stoi hn b').mp hb').symm

/-- The address is written in the list. -/
def Written (nodesStr : Text) (ip : List UInt8) : Prop :=
  ∃ field ∈ nodesStr.splitOn comma, Spells (strip field) ip

theorem written_iff {nodesStr : Text} {ip : List UInt8} :
    Written nodesStr ip ↔ ∃ entry ∈ entries nodesStr, Spells entry ip := by
  constructor
  · intro h
    obtain ⟨field, hfield, hspells⟩ := h
    refine ⟨strip field, ?_, hspells⟩
    rw [entries, List.mem_filter]
    exact ⟨List.mem_map_of_mem hfield, by simpa using spells_ne_nil hspells⟩
  · intro h
    obtain ⟨entry, hentry, hspells⟩ := h
    rw [entries, List.mem_filter, List.mem_map] at hentry
    obtain ⟨⟨field, hfield, rfl⟩, -⟩ := hentry
    exact ⟨field, hfield, hspells⟩

/-- The entries whose position fits into the count of 32 bits. -/
def counted (nodesStr : Text) : List Text :=
  (entries nodesStr).take ((entries nodesStr).length % 2 ^ 32)

/-- The filter accepts what the code reads in one of these entries. -/
theorem isNodeIPAllowed_parseNodes {nodesStr : Text} {nodes : List NodeEndpoint}
    (h : parseNodes nodesStr = .ok nodes) (addr : SockaddrIn) :
    isNodeIPAllowed nodes addr = true ↔ ∃ entry ∈ counted nodesStr, Reads entry addr.sAddr := by
  rw [parseNodes_eq_ok_iff] at h
  have hcounted := List.forall₂_take (nodes.length % 2 ^ 32) h
  rw [isNodeIPAllowed_iff, counted, h.length_eq]
  constructor
  · intro hnode
    obtain ⟨node, hmem, hip⟩ := hnode
    obtain ⟨entry, hentry, hreads⟩ := exists_left_of_forall₂ hcounted hmem
    exact ⟨entry, hentry, hip ▸ hreads⟩
  · intro hentry
    obtain ⟨entry, hmem, hreads⟩ := hentry
    obtain ⟨node, hnode, hreads'⟩ := exists_right_of_forall₂ hcounted hmem
    exact ⟨node, hnode, reads_unique hreads' hreads⟩

/-- An entry as it should be: four runs of digits with points between them, each with a value
of at most 255. -/
def WellFormed (entry : Text) : Prop :=
  (entry.splitOn point).length = 4 ∧ ∀ octet ∈ entry.splitOn point,
    octet ≠ [] ∧ (∀ c ∈ octet, isDigit c = true) ∧ numeralFrom 0 octet ≤ 255

instance (entry : Text) : Decidable (WellFormed entry) :=
  inferInstanceAs (Decidable (_ ∧ _))

/-- An entry with less than four fields, or where one of the first four does not start with
a number of an `int`. -/
def Refused (entry : Text) : Prop :=
  (entry.splitOn point).length < 4 ∨ ∃ octet ∈ (entry.splitOn point).take 4,
    ∀ n, StartsWithInt octet n → n < -2147483648 ∨ 2147483647 < n

theorem exists_spellsOctet_iff {octet : Text} :
    (∃ b, SpellsOctet octet b) ↔
      octet ≠ [] ∧ (∀ c ∈ octet, isDigit c = true) ∧ numeralFrom 0 octet ≤ 255 := by
  constructor
  · intro h
    obtain ⟨b, hne, hdigits, hvalue⟩ := h
    have hlt := b.toNat_lt
    exact ⟨hne, hdigits, by omega⟩
  · intro h
    obtain ⟨hne, hdigits, hvalue⟩ := h
    refine ⟨UInt8.ofNat (numeralFrom 0 octet), hne, hdigits, ?_⟩
    rw [UInt8.toNat_ofNat']
    omega

theorem wellFormed_iff {entry : Text} : WellFormed entry ↔ ∃ ip, Spells entry ip := by
  simp only [WellFormed, Spells, ← exists_spellsOctet_iff]
  constructor
  · intro h
    obtain ⟨hlen, hoctets⟩ := h
    obtain ⟨ip, hip⟩ := exists_forall₂_iff.mpr hoctets
    exact ⟨ip, hip.length_eq.symm.trans hlen, hip⟩
  · intro h
    obtain ⟨ip, hlen, hip⟩ := h
    exact ⟨hip.length_eq.trans hlen, exists_forall₂_iff.mp ⟨ip, hip⟩⟩

theorem not_readsOctet_iff {octet : Text} :
    (¬ ∃ b, ReadsOctet octet b) ↔
      ∀ n, StartsWithInt octet n → n < -2147483648 ∨ 2147483647 < n := by
  constructor
  · intro h n hn
    by_contra hrange
    exact h ⟨UInt8.ofInt n, n, hn, by omega, by omega, rfl⟩
  · intro h hb
    obtain ⟨b, n, hn, hlow, hhigh, -⟩ := hb
    have hrange := h n hn
    omega

/-- The entries that are refused are those that are not read. -/
theorem refused_iff {entry : Text} :
    Refused entry ↔ ¬ ∃ node : NodeEndpoint, Reads entry node.ip := by
  have hread : (∃ node : NodeEndpoint, Reads entry node.ip) ↔
      4 ≤ (entry.splitOn point).length ∧
        ∀ octet ∈ (entry.splitOn point).take 4, ∃ b, ReadsOctet octet b := by
    rw [← exists_forall₂_iff]
    constructor
    · intro h
      obtain ⟨node, hreads⟩ := h
      have hlen := hreads.length_eq
      rw [List.length_take, node.length_ip] at hlen
      exact ⟨by omega, node.ip, hreads⟩
    · intro h
      obtain ⟨hfields, ip, hreads⟩ := h
      have hlen := hreads.length_eq
      rw [List.length_take] at hlen
      exact ⟨⟨ip, by omega⟩, hreads⟩
  rw [hread, Refused, not_and_or, Nat.not_le]
  simp only [not_forall, exists_prop, not_readsOctet_iff]

/-- A list is refused as a whole when one of its entries is. -/
theorem not_parseNodes_iff {nodesStr : Text} :
    (¬ ∃ nodes, parseNodes nodesStr = .ok nodes) ↔ ∃ entry ∈ entries nodesStr, Refused entry := by
  simp only [parseNodes_eq_ok_iff, exists_forall₂_iff, refused_iff, not_forall, exists_prop]

/-- Every entry is loaded as the address that it spells and the filter accepts only addresses
that are written in the list, exactly when all entries are well formed or the list is refused,
because one of its entries is. -/
theorem whitelist_admits_only_written_iff (nodesStr : Text) :
    (∀ nodes, parseNodes nodesStr = .ok nodes →
      (∀ addr, isNodeIPAllowed nodes addr = true → Written nodesStr addr.sAddr) ∧
      List.Forall₂ (fun entry node => Spells entry node.ip) (entries nodesStr) nodes) ↔
      (∀ entry ∈ entries nodesStr, WellFormed entry) ∨
        ∃ entry ∈ entries nodesStr, Refused entry := by
  rw [← not_parseNodes_iff]
  constructor
  · intro h
    by_cases hload : ∃ nodes, parseNodes nodesStr = .ok nodes
    · obtain ⟨nodes, hnodes⟩ := hload
      left
      intro entry hentry
      obtain ⟨node, -, hspells⟩ := exists_right_of_forall₂ (h nodes hnodes).2 hentry
      exact wellFormed_iff.mpr ⟨node.ip, hspells⟩
    · exact .inr hload
  · intro h nodes hnodes
    rcases h with hformed | hrefused
    · -- what is read in a well-formed entry is what it spells
      have hspells : ∀ entry ∈ entries nodesStr, ∀ ip, Reads entry ip → Spells entry ip := by
        intro entry hentry ip hreads
        obtain ⟨ip', hspells⟩ := wellFormed_iff.mp (hformed entry hentry)
        rw [reads_unique hreads (reads_of_spells hspells)]
        exact hspells
      constructor
      · intro addr hallowed
        obtain ⟨entry, hcounted, hreads⟩ := (isNodeIPAllowed_parseNodes hnodes addr).mp hallowed
        have hentry := List.mem_of_mem_take hcounted
        exact written_iff.mpr ⟨entry, hentry, hspells entry hentry _ hreads⟩
      · have hreads := (List.forall₂_and_left _ _).mpr ⟨hspells, parseNodes_eq_ok_iff.mp hnodes⟩
        exact hreads.imp fun _ node h => h.1 node.ip h.2
    · exact absurd ⟨nodes, hnodes⟩ hrefused

/-- An octet of 256 is read as zero: the list admits the node 0.0.0.1, which is not written
in it. -/
theorem whitelist_admits_unwritten :
    parseNodes (ascii "256.0.0.1") = .ok [⟨[0, 0, 0, 1], rfl⟩] ∧
      isNodeIPAllowed [⟨[0, 0, 0, 1], rfl⟩] ⟨[0, 0, 0, 1], rfl⟩ = true ∧
      ¬ Written (ascii "256.0.0.1") [0, 0, 0, 1] := by
  refine ⟨by decide +kernel, by decide +kernel, ?_⟩
  rw [written_iff]
  have hentries : entries (ascii "256.0.0.1") = [ascii "256.0.0.1"] := by decide +kernel
  rw [hentries]
  decide +kernel

/-! ## Printed lists -/

/-- Spaces and tabs. -/
abbrev Blanks := { text : Text // ∀ c ∈ text, isBlank c = true }

/-- A field of a printed list: a node with blanks around it, or only blanks. -/
inductive Field where
  | blank (text : Blanks)
  | node (before : Blanks) (endpoint : NodeEndpoint) (after : Blanks)

namespace Field

def text : Field → Text
  | blank text => text
  | node before endpoint after => before ++ (endpoint.ipString ++ after)

/-- The nodes that are printed. -/
def endpoints (fields : List Field) : List NodeEndpoint :=
  fields.filterMap fun
    | blank _ => none
    | node _ endpoint _ => some endpoint

/-- A list of nodes, printed with commas between the fields. -/
def print (fields : List Field) : Text := [comma].intercalate (fields.map text)

end Field

theorem spells_ipString (node : NodeEndpoint) : Spells node.ipString node.ip := by
  refine ⟨node.length_ip, ?_⟩
  rw [NodeEndpoint.ipString, List.splitOn_intercalate]
  · rw [List.forall₂_map_left_iff, List.forall₂_same]
    intro b _
    exact ⟨ofNat_ne_nil _, fun c hc => isDigit_of_mem_ofNat hc, numeralFrom_ofNat _⟩
  · intro octet hoctet hpoint
    obtain ⟨b, -, rfl⟩ := List.mem_map.mp hoctet
    exact absurd (isDigit_of_mem_ofNat hpoint) (by decide)
  · intro hnil
    have hlen := node.length_ip
    rw [List.map_eq_nil_iff.mp hnil] at hlen
    exact absurd hlen (by decide)

/-- A printed address has only digits and points. -/
theorem mem_ipString {node : NodeEndpoint} {c : UInt8} (h : c ∈ node.ipString) :
    isDigit c = true ∨ c = point := by
  obtain ⟨ip, hlen⟩ := node
  match ip, hlen with
  | [b0, b1, b2, b3], _ =>
    simp only [NodeEndpoint.ipString, List.map_cons, List.map_nil, List.intercalate_cons_cons,
      List.intercalate_singleton, List.mem_append, List.mem_singleton] at h
    have hdigit := fun n => @isDigit_of_mem_ofNat n c
    tauto

theorem isBlank_iff {c : UInt8} : isBlank c = true ↔ c.toNat = 32 ∨ c.toNat = 9 := by
  simp [isBlank, ← UInt8.toNat_inj]

theorem strip_append {before text after : Text} (hbefore : ∀ c ∈ before, isBlank c = true)
    (htext : ∀ c ∈ text, isBlank c = false) (hafter : ∀ c ∈ after, isBlank c = true) :
    strip (before ++ (text ++ after)) = text := by
  have hkeep : ∀ s : Text, (∀ c ∈ s, isBlank c = false) → s.dropWhile isBlank = s := by
    intro s hs
    cases s with
    | nil => rfl
    | cons c cs => exact List.dropWhile_cons_of_neg (by simp [hs c])
  rw [strip, List.dropWhile_append_of_pos hbefore]
  cases text with
  | nil => rw [List.nil_append, List.dropWhile_eq_nil_iff.mpr hafter]; rfl
  | cons c cs =>
    have hc : ¬ isBlank c = true := by simp [htext c]
    rw [List.cons_append, List.dropWhile_cons_of_neg hc, ← List.cons_append, List.rdropWhile,
      List.reverse_append, List.dropWhile_append_of_pos (by simpa using hafter),
      hkeep _ fun d hd => htext d (List.mem_reverse.mp hd), List.reverse_reverse]

theorem strip_blank (text : Blanks) : strip text = [] := by
  rw [strip, List.dropWhile_eq_nil_iff.mpr text.2]
  rfl

theorem strip_node (before after : Blanks) (node : NodeEndpoint) :
    strip (before ++ (node.ipString ++ after)) = node.ipString := by
  refine strip_append before.2 (fun c hc => ?_) after.2
  rcases mem_ipString hc with hdigit | rfl
  · rw [isDigit_iff] at hdigit
    rw [← Bool.not_eq_true, isBlank_iff]
    omega
  · rfl

theorem comma_notMem_text (field : Field) : comma ∉ field.text := by
  have hblanks : ∀ text : Blanks, comma ∉ text.1 := by
    intro text h
    exact absurd (text.2 comma h) (by decide)
  have hnode : ∀ node : NodeEndpoint, comma ∉ node.ipString := by
    intro node h
    exact absurd (mem_ipString h) (by decide)
  cases field with
  | blank text => exact hblanks text
  | node before endpoint after =>
    simp only [Field.text, List.mem_append, not_or]
    exact ⟨hblanks before, hnode endpoint, hblanks after⟩

/-- The entries of a printed list are its nodes. -/
theorem entries_print (fields : List Field) :
    entries (Field.print fields) = (Field.endpoints fields).map NodeEndpoint.ipString := by
  have hfields : ((fields.map Field.text).map strip).filter (· ≠ []) =
      (Field.endpoints fields).map NodeEndpoint.ipString := by
    induction fields with
    | nil => rfl
    | cons field fields ih =>
      cases field with
      | blank text =>
        rw [List.map_cons, List.map_cons, List.filter_cons_of_neg, ih]
        · rfl
        · simp [Field.text, strip_blank]
      | node before endpoint after =>
        rw [List.map_cons, List.map_cons, Field.text, strip_node, List.filter_cons_of_pos, ih]
        · rfl
        · simpa using spells_ne_nil (spells_ipString endpoint)
  by_cases hnil : fields = []
  · rw [hnil]
    rfl
  · rw [entries, Field.print, List.splitOn_intercalate, hfields]
    · intro text htext
      obtain ⟨field, -, rfl⟩ := List.mem_map.mp htext
      exact comma_notMem_text field
    · simpa using hnil

/-- A printed list is read back. -/
theorem parseNodes_print (fields : List Field) :
    parseNodes (Field.print fields) = .ok (Field.endpoints fields) := by
  rw [parseNodes_eq_ok_iff, entries_print, List.forall₂_map_left_iff, List.forall₂_same]
  exact fun node _ => reads_of_spells (spells_ipString node)

/-- The filter accepts the nodes of a printed list.  It counts them in 32 bits, so that of a
longer list only the first ones are accepted. -/
theorem whitelist_admits_printed (fields : List Field) :
    parseNodes (Field.print fields) = .ok (Field.endpoints fields) ∧
      (∀ addr, isNodeIPAllowed (Field.endpoints fields) addr = true ↔
        ∃ node ∈ (Field.endpoints fields).take ((Field.endpoints fields).length % 2 ^ 32),
          node.ip = addr.sAddr) ∧
      ((Field.endpoints fields).length < 2 ^ 32 →
        ∀ addr, isNodeIPAllowed (Field.endpoints fields) addr = true ↔
          ∃ node ∈ Field.endpoints fields, node.ip = addr.sAddr) := by
  refine ⟨parseNodes_print fields, fun addr => isNodeIPAllowed_iff, fun hlt addr => ?_⟩
  rw [isNodeIPAllowed_iff, Nat.mod_eq_of_lt hlt, List.take_length]

/-- A list of `2 ^ 32` nodes has the count zero, and the filter rejects every node. -/
theorem whitelist_rejects_printed :
    ∃ fields : List Field, ∃ addr : SockaddrIn,
      (∃ node ∈ Field.endpoints fields, node.ip = addr.sAddr) ∧
        parseNodes (Field.print fields) = .ok (Field.endpoints fields) ∧
        isNodeIPAllowed (Field.endpoints fields) addr = false := by
  have hnodes : ∀ n, Field.endpoints
      (List.replicate n (.node ⟨[], by simp⟩ ⟨[10, 0, 0, 1], rfl⟩ ⟨[], by simp⟩)) =
        List.replicate n ⟨[10, 0, 0, 1], rfl⟩ := by
    intro n
    exact List.filterMap_replicate_of_some rfl
  refine ⟨List.replicate (2 ^ 32) (.node ⟨[], by simp⟩ ⟨[10, 0, 0, 1], rfl⟩ ⟨[], by simp⟩),
    ⟨[10, 0, 0, 1], rfl⟩, ?_, parseNodes_print _, ?_⟩
  · rw [hnodes]
    exact ⟨_, List.mem_replicate.mpr ⟨by decide, rfl⟩, rfl⟩
  · rw [← Bool.not_eq_true, isNodeIPAllowed_iff, hnodes, List.length_replicate, Nat.mod_self,
      List.take_zero]
    simp

end OracleMachine.Node.Whitelist
