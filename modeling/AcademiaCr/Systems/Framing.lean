import AcademiaCr.Library.Socket

/-!
# Length-prefixed messages over TCP

`send_message` and `receive_message`, which the server and the client have alike. A message is
sent after its length in four bytes. The receiver takes this prefix with a single `recv` and
the message with as many as it needs.

## Main definitions

- `sendMessage`: the bytes that are sent for a message
- `receiveMessage`: one call, `receiveAll`: calls one after another
- `WholePrefixes`, `PrefixOk`: that no prefix is cut, and what a first prefix must be like
- `framing_iff`: when the messages arrive, and when a result is a message of the stream
-/

namespace AcademiaCr.Systems

open CLang

/-! ## Sending and receiving -/

/-- The conversion of a `uint32_t` or a `size_t` to an `int`. -/
def toInt (n : Nat) : Int := (n : Int).bmod (2 ^ 32)

/-- The bytes that `send` takes from an object. A negative length is converted to a `size_t`
that no object has, and a call with a length beyond the object has no result. -/
def send (object : List UInt8) (len : Int) : Option (List UInt8) :=
  if 0 ≤ len ∧ len ≤ object.length then some (object.take len.toNat) else none

/-- `send_message`; `c_str` has a NUL after the bytes of the message. -/
def sendMessage (msg : List UInt8) : Option (List UInt8) := do
  let len := htonl (msg.length % 2 ^ 32)
  return (← send len.toList 4) ++ (← send (msg ++ [0]) (toInt msg.length))

/-- The stream of several messages. -/
def sendAll : List (List UInt8) → Option (List UInt8)
  | [] => some []
  | msg :: messages => do return (← sendMessage msg) ++ (← sendAll messages)

/-- Bytes stored at `buffer.data() + total`. -/
def store (buffer : List UInt8) (total : Nat) (bytes : List UInt8) : List UInt8 :=
  buffer.take total ++ bytes ++ buffer.drop (total + bytes.length)

/-- The loop of `receive_message`, and the connection after it. -/
def receiveBody (len : Int) (buffer : List UInt8) (total : Nat) (sock : Socket) :
    List UInt8 × Socket :=
  if _ : total < len then
    match _ : (sock.read (len - total).toNat).1 with
    | [] => ([], (sock.read (len - total).toNat).2)
    | b :: bytes =>
      receiveBody len (store buffer total (b :: bytes)) (total + (b :: bytes).length)
        (sock.read (len - total).toNat).2
  else (buffer, sock)
termination_by (len - total).toNat
decreasing_by
  simp only [List.length_cons]
  omega

/-- `receive_message`, where `lenNet` is what the variable of this name holds before anything
is read into it. -/
def receiveMessage (lenNet : CArray UInt8 4) (sock : Socket) : List UInt8 × Socket :=
  let (received, sock) := sock.read 4
  if received.isEmpty then ([], sock)
  else
    let len := ntohl (lenNet.fill received)
    receiveBody (toInt len) (List.replicate len 0) 0 sock

/-- Calls one after another. -/
def receiveAll (lenNet : Nat → CArray UInt8 4) : Nat → Socket → List (List UInt8)
  | 0, _ => []
  | calls + 1, sock =>
    let (message, sock) := receiveMessage (lenNet 0) sock
    message :: receiveAll (fun i => lenNet (i + 1)) calls sock

/-! ## One call -/

theorem toInt_eq (n : Nat) : toInt n = (n : Int).bmod 4294967296 := rfl

theorem toInt_of_lt {n : Nat} (h : n < 2 ^ 31) : toInt n = n := by
  rw [toInt_eq, Int.bmod]
  omega

theorem toInt_neg {n : Nat} (hlo : 2 ^ 31 ≤ n) (hhi : n < 2 ^ 32) : toInt n < 0 := by
  rw [toInt_eq, Int.bmod]
  omega

/-- The bytes are stored after those that have been received before. -/
theorem store_blank (front bytes : List UInt8) (n : Nat) :
    store (front ++ List.replicate n 0) front.length bytes =
      (front ++ bytes) ++ List.replicate (n - bytes.length) 0 := by
  rw [store, List.take_left, List.drop_append, List.drop_eq_nil_of_le (Nat.le_add_right _ _),
    List.nil_append, Nat.add_sub_cancel_left, List.drop_replicate]

section

variable {front : List UInt8} {n : Nat} {sock : Socket}

theorem receiveBody_zero :
    receiveBody ((front.length + 0 : Nat) : Int) (front ++ List.replicate 0 0) front.length sock =
      (front, sock) := by
  rw [receiveBody, dif_neg (by omega), List.replicate_zero, List.append_nil]

/-- The connection has ended before the message. -/
theorem receiveBody_end (hn : n ≠ 0) (hread : (sock.read n).1 = []) :
    (receiveBody ((front.length + n : Nat) : Int) (front ++ List.replicate n 0) front.length
      sock).1 = [] := by
  have hasked : (((front.length + n : Nat) : Int) - front.length).toNat = n := by omega
  rw [receiveBody, dif_pos (by omega), hasked]
  split
  · rfl
  · next b bytes hbytes => exact absurd (hread.symm.trans hbytes) (List.cons_ne_nil _ _).symm

/-- One round of the loop. -/
theorem receiveBody_step (hn : n ≠ 0) (hread : (sock.read n).1 ≠ []) :
    receiveBody ((front.length + n : Nat) : Int) (front ++ List.replicate n 0) front.length sock =
      receiveBody (((front ++ (sock.read n).1).length + (n - (sock.read n).1.length) : Nat) : Int)
        ((front ++ (sock.read n).1) ++ List.replicate (n - (sock.read n).1.length) 0)
        (front ++ (sock.read n).1).length (sock.read n).2 := by
  have hasked : (((front.length + n : Nat) : Int) - front.length).toNat = n := by omega
  have hle := Socket.length_read_le sock n
  have htotal : (front ++ (sock.read n).1).length + (n - (sock.read n).1.length) =
      front.length + n := by
    rw [List.length_append]
    omega
  rw [receiveBody, dif_pos (by omega), hasked]
  split
  · next hnil => exact absurd hnil hread
  · next b bytes hbytes => rw [← hbytes, store_blank, htotal, List.length_append]

/-- The loop receives the missing bytes if there are so many. -/
theorem receiveBody_of_le (h : n ≤ sock.pending.length) :
    receiveBody ((front.length + n : Nat) : Int) (front ++ List.replicate n 0) front.length sock =
      (front ++ sock.pending.take n, ⟨sock.pending.drop n,
        fun i => sock.arrived (Socket.readsFor n sock.arrived + i)⟩) := by
  induction n using Nat.strong_induction_on generalizing front sock with
  | _ n ih =>
    by_cases hn : n = 0
    · subst hn
      rw [receiveBody_zero, Socket.readsFor, dif_pos rfl]
      simp
    · have hread : (sock.read n).1 ≠ [] :=
        Socket.read_ne_nil hn (List.ne_nil_of_length_pos (by omega))
      have hpos := List.length_pos_iff.mpr hread
      have hlength : (sock.read n).1.length = min n (sock.arrived 0) := by
        rw [Socket.length_read]
        omega
      have htaken : (sock.read n).1 ++ (sock.read n).2.pending.take (n - (sock.read n).1.length) =
          sock.pending.take n := by
        conv_rhs => rw [← Socket.read_append sock n]
        rw [List.take_append, List.take_of_length_le (Socket.length_read_le sock n)]
      have hleft : (sock.read n).2.pending.drop (n - (sock.read n).1.length) =
          sock.pending.drop n := by
        conv_rhs => rw [← Socket.read_append sock n]
        rw [List.drop_append, List.drop_eq_nil_of_le (Socket.length_read_le sock n),
          List.nil_append]
      have hreads : Socket.readsFor n sock.arrived =
          1 + Socket.readsFor (n - (sock.read n).1.length) (sock.read n).2.arrived := by
        have hrest : n - (sock.read n).1.length = n - sock.arrived 0 := by omega
        rw [Socket.readsFor, dif_neg hn, hrest]
        rfl
      have hmore : n - (sock.read n).1.length ≤ (sock.read n).2.pending.length := by
        have happend := congrArg List.length (Socket.read_append sock n)
        rw [List.length_append] at happend
        omega
      have harrived : (fun i => (sock.read n).2.arrived
          (Socket.readsFor (n - (sock.read n).1.length) (sock.read n).2.arrived + i)) =
            fun i => sock.arrived (Socket.readsFor n sock.arrived + i) := by
        funext i
        rw [Socket.read_arrived, hreads]
        exact congrArg sock.arrived (by omega)
      rw [receiveBody_step hn hread, ih _ (by omega) hmore, List.append_assoc, htaken, hleft,
        harrived]

/-- The message is not complete. -/
theorem receiveBody_of_lt (h : sock.pending.length < n) :
    (receiveBody ((front.length + n : Nat) : Int) (front ++ List.replicate n 0) front.length
      sock).1 = [] := by
  induction n using Nat.strong_induction_on generalizing front sock with
  | _ n ih =>
    by_cases hread : (sock.read n).1 = []
    · exact receiveBody_end (by omega) hread
    · have hpos := List.length_pos_iff.mpr hread
      have happend := congrArg List.length (Socket.read_append sock n)
      rw [List.length_append] at happend
      rw [receiveBody_step (by omega) hread]
      exact ih _ (by omega) (by omega)

end

/-- What a call returns for the number `len` in the prefix that it has read: NULs if the number
is negative as an `int`, the message if the rest of the stream is long enough, else nothing. -/
theorem receiveMessage_cases {lenNet : CArray UInt8 4} (sock : Socket) {len : Nat}
    (hne : sock.pending ≠ []) (hlen : ntohl (lenNet.fill (sock.read 4).1) = len) :
    (2 ^ 31 ≤ len ∧ receiveMessage lenNet sock = (List.replicate len 0, (sock.read 4).2)) ∨
    (len < 2 ^ 31 ∧ len ≤ (sock.read 4).2.pending.length ∧ receiveMessage lenNet sock =
      ((sock.read 4).2.pending.take len, ⟨(sock.read 4).2.pending.drop len, fun i =>
        sock.arrived (Socket.readsFor len (fun i => sock.arrived (i + 1)) + i + 1)⟩)) ∨
    (len < 2 ^ 31 ∧ (sock.read 4).2.pending.length < len ∧
      (receiveMessage lenNet sock).1 = []) := by
  have hread : ¬ (sock.read 4).1.isEmpty := by
    rw [List.isEmpty_iff]
    exact Socket.read_ne_nil (by decide) hne
  have hcall : receiveMessage lenNet sock =
      receiveBody (toInt len) (List.replicate len 0) 0 (sock.read 4).2 := by
    subst hlen
    exact if_neg hread
  have hlt : len < 2 ^ 32 := hlen ▸ ntohl_lt _
  rw [hcall]
  obtain hsmall | hlarge := Nat.lt_or_ge len (2 ^ 31)
  · right
    rw [toInt_of_lt hsmall]
    have hstart : ((len : Nat) : Int) = (([] : List UInt8).length + len : Nat) := by simp
    rw [hstart]
    obtain hshort | hlong := Nat.lt_or_ge (sock.read 4).2.pending.length len
    · exact .inr ⟨hsmall, hshort, receiveBody_of_lt hshort⟩
    · exact .inl ⟨hsmall, hlong, @receiveBody_of_le [] _ _ hlong⟩
  · refine .inl ⟨hlarge, ?_⟩
    have hneg := toInt_neg hlarge hlt
    rw [receiveBody, dif_neg (by omega)]

/-- A call at the end of the stream. -/
theorem receiveMessage_end {lenNet : CArray UInt8 4} {sock : Socket} (h : sock.pending = []) :
    (receiveMessage lenNet sock).1 = [] := by
  have hread : (sock.read 4).1.isEmpty = true := by
    rw [Socket.read, h, List.take_nil]
    rfl
  have hcall : receiveMessage lenNet sock = ([], (sock.read 4).2) := if_pos hread
  rw [hcall]

theorem length_receiveMessage (lenNet : CArray UInt8 4) (sock : Socket) :
    (receiveMessage lenNet sock).1.length < 2 ^ 32 := by
  by_cases hend : sock.pending = []
  · rw [receiveMessage_end hend]
    decide
  · have hlt := ntohl_lt (lenNet.fill (sock.read 4).1)
    obtain ⟨_, hcall⟩ | ⟨_, _, hcall⟩ | ⟨_, _, hcall⟩ := receiveMessage_cases _ hend rfl
    · rwa [hcall, List.length_replicate]
    · rw [hcall, List.length_take]
      omega
    · rw [hcall]
      decide

/-! ## Prefixes read in part -/

section

variable {received : List UInt8}

theorem drop_zeros (n : Nat) :
    bigEndian ((zeros : CArray UInt8 4).toList.drop n) = 0 := by
  show bigEndian ((List.replicate 4 0).drop n) = 0
  rw [List.drop_replicate, bigEndian_zeros]

/-- The number in a prefix that has been read in part is least when zeros stand for the missing
bytes. -/
theorem ntohl_zeros_le (h : received.length ≤ 4) (lenNet : CArray UInt8 4) :
    ntohl (zeros.fill received) ≤ ntohl (lenNet.fill received) := by
  rw [ntohl_fill _ h, ntohl_fill _ h, drop_zeros]
  omega

/-- A byte of the prefix decides whether the number is negative as an `int`. -/
theorem ntohl_lt_of_zeros (hne : received ≠ []) (h : received.length ≤ 4)
    (hlt : ntohl (zeros.fill received) < 2 ^ 31) (lenNet : CArray UInt8 4) :
    ntohl (lenNet.fill received) < 2 ^ 31 := by
  have hrest := bigEndian_lt (lenNet.toList.drop received.length)
  have hpos := List.length_pos_iff.mpr hne
  rw [List.length_drop, lenNet.length_toList] at hrest
  have hsplit : 2 ^ 31 =
      2 ^ (31 - 8 * (4 - received.length)) * 2 ^ (8 * (4 - received.length)) := by
    rw [← Nat.pow_add]
    exact congrArg (2 ^ ·) (by omega)
  rw [ntohl_fill _ h, drop_zeros, Nat.add_zero, hsplit] at hlt
  rw [ntohl_fill _ h, hsplit]
  have hnext : (bigEndian received + 1) * 2 ^ (8 * (4 - received.length)) ≤
      2 ^ (31 - 8 * (4 - received.length)) * 2 ^ (8 * (4 - received.length)) :=
    Nat.mul_le_mul_right _ (Nat.lt_of_mul_lt_mul_right hlt)
  rw [Nat.add_mul, Nat.one_mul] at hnext
  exact Nat.lt_of_lt_of_le (Nat.add_lt_add_left hrest _) hnext

/-- What the missing bytes hold changes the number. -/
theorem ntohl_last (h : received.length < 4) (b : UInt8) :
    ntohl ((⟨[0, 0, 0, b], rfl⟩ : CArray UInt8 4).fill received) =
      ntohl (zeros.fill received) + b.toNat := by
  have hlast : ([0, 0, 0, b] : List UInt8).drop received.length =
      List.replicate (3 - received.length) 0 ++ [b] := by
    obtain hk | hk | hk | hk : received.length = 0 ∨ received.length = 1 ∨ received.length = 2 ∨
        received.length = 3 := by omega
    all_goals
      rw [hk]
      rfl
  have hle : received.length ≤ 4 := Nat.le_of_lt h
  have hb : bigEndian [b] = b.toNat := (bigEndian_cons b []).trans (Nat.mul_one _)
  rw [ntohl_fill _ hle, ntohl_fill _ hle, drop_zeros, hlast, bigEndian_append, bigEndian_zeros,
    hb, Nat.zero_mul, Nat.zero_add, Nat.add_zero]

end

/-! ## Sent messages -/

theorem sendMessage_of_lt {msg : List UInt8} (h : msg.length < 2 ^ 31) :
    sendMessage msg = some ((htonl msg.length).toList ++ msg) := by
  have hprefix : ∀ len : Nat, send (htonl len).toList 4 = some (htonl len).toList := by
    intro len
    rfl
  have hmod : msg.length % 2 ^ 32 = msg.length := Nat.mod_eq_of_lt (by omega)
  have hbody : send (msg ++ [0]) (toInt msg.length) = some msg := by
    have hlength : (0 : Int) ≤ (msg.length : Int) ∧
        (msg.length : Int) ≤ ((msg ++ [0]).length : Nat) := by
      rw [List.length_append]
      omega
    rw [toInt_of_lt h, send, if_pos hlength, Int.toNat_natCast, List.take_left]
  rw [sendMessage, hmod, hprefix, hbody]
  rfl

/-- A message that can be sent has a length that is no negative `int`. -/
theorem lt_of_sendMessage {msg bytes : List UInt8} (hsent : sendMessage msg = some bytes)
    (h : msg.length < 2 ^ 32) : msg.length < 2 ^ 31 := by
  by_contra hlarge
  have hneg : ¬ (0 ≤ toInt msg.length ∧ toInt msg.length ≤ ((msg ++ [0]).length : Nat)) := by
    have hlt := toInt_neg (Nat.le_of_not_lt hlarge) h
    omega
  have hfails : sendMessage msg = none := by
    rw [sendMessage, send, send, if_neg hneg]
    rfl
  rw [hfails] at hsent
  cases hsent

theorem sendAll_of_lt {messages : List (List UInt8)} (h : ∀ msg ∈ messages, msg.length < 2 ^ 31) :
    sendAll messages = some (messages.flatMap fun msg => (htonl msg.length).toList ++ msg) := by
  induction messages with
  | nil => rfl
  | cons msg messages ih =>
    rw [sendAll, sendMessage_of_lt (h msg List.mem_cons_self),
      ih fun m hm => h m (List.mem_cons_of_mem _ hm)]
    rfl

theorem sendMessage_of_sendAll {messages : List (List UInt8)} {stream : List UInt8}
    (h : sendAll messages = some stream) :
    ∀ msg ∈ messages, ∃ bytes, sendMessage msg = some bytes := by
  induction messages generalizing stream with
  | nil => exact fun msg hmsg => absurd hmsg List.not_mem_nil
  | cons msg messages ih =>
    intro m hm
    cases hmsg : sendMessage msg with
    | none =>
      rw [sendAll, hmsg] at h
      cases h
    | some bytes =>
      cases hrest : sendAll messages with
      | none =>
        rw [sendAll, hmsg, hrest] at h
        cases h
      | some rest =>
        obtain rfl | hm := List.mem_cons.mp hm
        · exact ⟨bytes, hmsg⟩
        · exact ih hrest m hm

/-! ## Delivery -/

section

variable {sock : Socket} {msg rest : List UInt8}

/-- A message whose prefix is read as a whole. -/
theorem receiveMessage_whole (hp : sock.pending = (htonl msg.length).toList ++ msg ++ rest)
    (hmsg : msg.length < 2 ^ 31) (hwhole : 4 ≤ (sock.arrived 0 : Nat)) (lenNet : CArray UInt8 4) :
    receiveMessage lenNet sock = (msg, ⟨rest, fun i =>
      sock.arrived (Socket.readsFor msg.length (fun i => sock.arrived (i + 1)) + i + 1)⟩) := by
  have hfour : (htonl msg.length).toList.length = 4 := (htonl msg.length).length_toList
  rw [List.append_assoc] at hp
  have hread : sock.read 4 = ((htonl msg.length).toList, ⟨msg ++ rest,
      fun i => sock.arrived (i + 1)⟩) := Socket.read_of_le hp hfour hwhole
  have hfill : lenNet.fill (htonl msg.length).toList = htonl msg.length :=
    CArray.ext (CArray.toList_fill hfour)
  have hlen : ntohl (lenNet.fill (sock.read 4).1) = msg.length := by
    rw [hread, hfill, ntohl_htonl]
    exact Nat.mod_eq_of_lt (by omega)
  have hne : sock.pending ≠ [] := by
    rw [hp]
    exact List.cons_ne_nil _ _
  obtain ⟨hlarge, _⟩ | ⟨_, _, hcall⟩ | ⟨_, hshort, _⟩ := receiveMessage_cases _ hne hlen
  · omega
  · rw [hcall, hread, List.take_left, List.drop_left]
  · rw [hread, List.length_append] at hshort
    omega

/-- A message whose prefix is cut: for some contents of the rest of the variable the result is
another one. -/
theorem receiveMessage_cut (hp : sock.pending = (htonl msg.length).toList ++ msg ++ rest)
    (hmsg : msg.length < 2 ^ 31) (hcut : (sock.arrived 0 : Nat) < 4) :
    ∃ lenNet, (receiveMessage lenNet sock).1 ≠ msg := by
  have hlength : sock.pending.length = 4 + msg.length + rest.length := by
    rw [hp, List.length_append, List.length_append, CArray.length_toList]
  have hread := Socket.length_read sock 4
  have hleft := congrArg List.length (Socket.read_append sock 4)
  rw [List.length_append] at hleft
  have hpart : (sock.read 4).1.length < 4 := by omega
  -- the bytes of the prefix that are read are those of `htonl`
  have hm0 : ntohl (zeros.fill (sock.read 4).1) ≤ msg.length := by
    have hbytes : (htonl msg.length).fill (sock.read 4).1 = htonl msg.length := by
      have hfour : min 4 (sock.arrived 0 : Nat) ≤ (htonl msg.length).toList.length := by
        rw [CArray.length_toList]
        exact Nat.min_le_left _ _
      rw [Socket.read, hp, List.append_assoc, List.take_append_of_le_length hfour,
        CArray.fill_take]
    have hle := ntohl_zeros_le (Nat.le_of_lt hpart) (htonl msg.length)
    rwa [hbytes, ntohl_htonl, Nat.mod_eq_of_lt (by omega)] at hle
  obtain ⟨b, hb, hone⟩ : ∃ b : UInt8,
      ntohl (zeros.fill (sock.read 4).1) + b.toNat ≠ msg.length ∧
      (msg.length = 0 → ntohl (zeros.fill (sock.read 4).1) + b.toNat = 1) := by
    by_cases hsame : ntohl (zeros.fill (sock.read 4).1) = msg.length
    · refine ⟨1, ?_, fun hzero => ?_⟩ <;> rw [hsame]
      · exact Nat.succ_ne_self _
      · rw [hzero]
        rfl
    · refine ⟨0, hsame, fun hzero => ?_⟩
      omega
  refine ⟨⟨[0, 0, 0, b], rfl⟩, fun hsame => ?_⟩
  have hresult := congrArg List.length hsame
  have hne : sock.pending ≠ [] := List.ne_nil_of_length_pos (by omega)
  obtain ⟨_, hcall⟩ | ⟨_, hlong, hcall⟩ | ⟨_, hshort, hcall⟩ :=
    receiveMessage_cases _ hne (ntohl_last hpart b)
  · rw [hcall, List.length_replicate] at hresult
    exact hb hresult
  · rw [hcall, List.length_take] at hresult
    omega
  · rw [hcall, List.length_nil] at hresult
    have hmany := hone hresult.symm
    omega

end

/-- No prefix is cut: the read with which a call begins finds four bytes. -/
def WholePrefixes : List (List UInt8) → (Nat → ℕ+) → Prop
  | [], _ => True
  | msg :: messages, arrived => 4 ≤ (arrived 0 : Nat) ∧ WholePrefixes messages fun i =>
      arrived (Socket.readsFor msg.length (fun i => arrived (i + 1)) + i + 1)

theorem length_of_mem_receiveAll {lenNet : Nat → CArray UInt8 4} {calls : Nat} {sock : Socket} :
    ∀ message ∈ receiveAll lenNet calls sock, message.length < 2 ^ 32 := by
  induction calls generalizing lenNet sock with
  | zero => exact fun message hm => absurd hm List.not_mem_nil
  | succ calls ih =>
    intro message hm
    obtain rfl | hm := List.mem_cons.mp hm
    · exact length_receiveMessage (lenNet 0) sock
    · exact ih message hm

/-- Successive calls return the messages if and only if no prefix is cut. -/
theorem receiveAll_iff {messages : List (List UInt8)} (h : ∀ msg ∈ messages, msg.length < 2 ^ 31)
    (arrived : Nat → ℕ+) :
    (∀ lenNet, receiveAll lenNet messages.length
      ⟨messages.flatMap fun msg => (htonl msg.length).toList ++ msg, arrived⟩ = messages) ↔
        WholePrefixes messages arrived := by
  induction messages generalizing arrived with
  | nil => exact ⟨fun _ => trivial, fun _ _ => rfl⟩
  | cons msg messages ih =>
    have hmsg : msg.length < 2 ^ 31 := h msg List.mem_cons_self
    have hrest := ih fun m hm => h m (List.mem_cons_of_mem _ hm)
    have hcalls : ∀ lenNet : Nat → CArray UInt8 4, 4 ≤ (arrived 0 : Nat) →
        receiveAll lenNet (msg :: messages).length
          ⟨(msg :: messages).flatMap fun msg => (htonl msg.length).toList ++ msg, arrived⟩ =
            msg :: receiveAll (fun i => lenNet (i + 1)) messages.length
              ⟨messages.flatMap fun msg => (htonl msg.length).toList ++ msg, fun i =>
                arrived (Socket.readsFor msg.length (fun i => arrived (i + 1)) + i + 1)⟩ := by
      intro lenNet hwhole
      rw [List.length_cons, receiveAll, receiveMessage_whole rfl hmsg hwhole]
      rfl
    constructor
    · intro hall
      have hwhole : 4 ≤ (arrived 0 : Nat) := by
        by_contra hcut
        have hpending : Socket.pending ⟨(msg :: messages).flatMap
            fun msg => (htonl msg.length).toList ++ msg, arrived⟩ = _ := rfl
        obtain ⟨lenNet, hother⟩ := receiveMessage_cut hpending hmsg (Nat.lt_of_not_le hcut)
        exact hother (List.cons_eq_cons.mp (hall fun _ => lenNet)).1
      refine ⟨hwhole, (hrest _).mp fun lenNet => ?_⟩
      have hthis := hall fun i => lenNet (i - 1)
      rw [hcalls _ hwhole] at hthis
      exact (List.cons_eq_cons.mp hthis).2
    · intro ⟨hwhole, hmore⟩ lenNet
      rw [hcalls lenNet hwhole]
      exact congrArg (msg :: ·) ((hrest _).mpr hmore _)

/-- The messages can be sent, and successive calls return exactly them. -/
def Delivered (messages : List (List UInt8)) (arrived : Nat → ℕ+) : Prop :=
  ∃ stream, sendAll messages = some stream ∧
    ∀ lenNet, receiveAll lenNet messages.length ⟨stream, arrived⟩ = messages

theorem delivered_iff (messages : List (List UInt8)) (arrived : Nat → ℕ+) :
    Delivered messages arrived ↔
      (∀ msg ∈ messages, msg.length < 2 ^ 31) ∧ WholePrefixes messages arrived := by
  constructor
  · intro ⟨stream, hsent, hall⟩
    have hsmall : ∀ msg ∈ messages, msg.length < 2 ^ 31 := by
      intro msg hmsg
      obtain ⟨bytes, hbytes⟩ := sendMessage_of_sendAll hsent msg hmsg
      have hreceived := hall fun _ => zeros
      rw [← hreceived] at hmsg
      exact lt_of_sendMessage hbytes (length_of_mem_receiveAll msg hmsg)
    rw [sendAll_of_lt hsmall] at hsent
    cases hsent
    exact ⟨hsmall, (receiveAll_iff hsmall arrived).mp hall⟩
  · intro ⟨hsmall, hwhole⟩
    exact ⟨_, sendAll_of_lt hsmall, (receiveAll_iff hsmall arrived).mpr hwhole⟩

/-! ## Any stream -/

/-- A non-empty result is what follows a prefix with its length, and both have been consumed. -/
def Framed (stream : List UInt8) (arrived : Nat → ℕ+) : Prop :=
  ∀ lenNet, (receiveMessage lenNet ⟨stream, arrived⟩).1 ≠ [] →
    ∃ (len : CArray UInt8 4) (rest : List UInt8),
      stream = len.toList ++ (receiveMessage lenNet ⟨stream, arrived⟩).1 ++ rest ∧
      (receiveMessage lenNet ⟨stream, arrived⟩).1.length = ntohl len ∧
      (receiveMessage lenNet ⟨stream, arrived⟩).2.pending = rest

/-- The bytes that the first read of a stream finds when four are asked for. -/
def firstBytes (stream : List UInt8) (arrived : Nat → ℕ+) : List UInt8 :=
  stream.take (min 4 (arrived 0))

/-- These bytes, and zeros for those missing, denote no negative `int`; if some are missing, the
stream ends before a message of this length, and at once if the length is zero. -/
def PrefixOk (stream : List UInt8) (arrived : Nat → ℕ+) : Prop :=
  ntohl (zeros.fill (firstBytes stream arrived)) < 2 ^ 31 ∧
  ((firstBytes stream arrived).length < 4 → stream.length < (firstBytes stream arrived).length +
    max 1 (ntohl (zeros.fill (firstBytes stream arrived))))

/-- A result that has been consumed after four bytes. -/
theorem Framed.length {stream : List UInt8} {arrived : Nat → ℕ+} (h : Framed stream arrived)
    (lenNet : CArray UInt8 4) (hne : (receiveMessage lenNet ⟨stream, arrived⟩).1 ≠ []) :
    stream.length = 4 + (receiveMessage lenNet ⟨stream, arrived⟩).1.length +
      (receiveMessage lenNet ⟨stream, arrived⟩).2.pending.length := by
  obtain ⟨len, rest, hstream, _, hrest⟩ := h lenNet hne
  have hlength := congrArg List.length hstream
  rw [List.length_append, List.length_append, CArray.length_toList, ← hrest] at hlength
  exact hlength

section

variable {stream : List UInt8} {arrived : Nat → ℕ+}

theorem length_firstBytes_le : (firstBytes stream arrived).length ≤ 4 :=
  Socket.length_read_le ⟨stream, arrived⟩ 4

theorem firstBytes_append :
    firstBytes stream arrived ++ ((⟨stream, arrived⟩ : Socket).read 4).2.pending = stream :=
  Socket.read_append ⟨stream, arrived⟩ 4

theorem length_firstBytes_add (stream : List UInt8) (arrived : Nat → ℕ+) :
    (firstBytes stream arrived).length + ((⟨stream, arrived⟩ : Socket).read 4).2.pending.length =
      stream.length := by
  rw [← List.length_append, firstBytes_append]

/-- A call that returns a message of `n` bytes has consumed four bytes before it. -/
theorem Framed.length_lt (h : Framed stream arrived) (lenNet : CArray UInt8 4) {n : Nat}
    (hn : 0 < n) (hlen : ntohl (lenNet.fill (firstBytes stream arrived)) = n)
    (hne : stream ≠ []) : n < 2 ^ 31 ∧ (stream.length < (firstBytes stream arrived).length + n ∨
      (firstBytes stream arrived).length = 4) := by
  have hfour : (firstBytes stream arrived).length ≤ 4 := length_firstBytes_le
  have hlength := length_firstBytes_add stream arrived
  obtain ⟨_, hcall⟩ | ⟨hsmall, hlong, hcall⟩ | ⟨hsmall, hshort, _⟩ :=
    receiveMessage_cases ⟨stream, arrived⟩ hne hlen
  · have hconsumed := h.length lenNet (by
      rw [hcall]
      exact List.ne_nil_of_length_pos (by rwa [List.length_replicate]))
    rw [hcall, List.length_replicate] at hconsumed
    dsimp only at hconsumed
    omega
  · have hconsumed := h.length lenNet (by
      rw [hcall]
      exact List.ne_nil_of_length_pos (by rw [List.length_take]; omega))
    rw [hcall, List.length_take, List.length_drop] at hconsumed
    exact ⟨hsmall, .inr (by omega)⟩
  · exact ⟨hsmall, .inl (by omega)⟩

theorem Framed.prefixOk (h : Framed stream arrived) : PrefixOk stream arrived := by
  constructor
  · by_cases hzero : ntohl (zeros.fill (firstBytes stream arrived)) = 0
    · rw [hzero]
      exact Nat.two_pow_pos 31
    · have hne : stream ≠ [] := by
        intro hend
        rw [firstBytes, hend, List.take_nil] at hzero
        exact hzero (by decide)
      exact (h.length_lt zeros (Nat.pos_of_ne_zero hzero) rfl hne).1
  · intro hpart
    by_contra hlong
    have hne : stream ≠ [] := by
      apply List.ne_nil_of_length_pos
      omega
    by_cases hzero : ntohl (zeros.fill (firstBytes stream arrived)) = 0
    · -- the variable can make the number 1, and the byte that follows a message
      have hone := ntohl_last hpart 1
      rw [hzero] at hone hlong
      have hends := (h.length_lt _ Nat.one_pos hone hne).2
      omega
    · have hends := (h.length_lt zeros (Nat.pos_of_ne_zero hzero) rfl hne).2
      omega

theorem PrefixOk.framed (h : PrefixOk stream arrived) : Framed stream arrived := by
  obtain ⟨hnum, hpart⟩ := h
  intro lenNet hresult
  have hfour : (firstBytes stream arrived).length ≤ 4 := length_firstBytes_le
  have hlength := length_firstBytes_add stream arrived
  have hne : stream ≠ [] := fun hend => hresult (receiveMessage_end hend)
  have hread : firstBytes stream arrived ≠ [] :=
    show (Socket.read ⟨stream, arrived⟩ 4).1 ≠ [] from Socket.read_ne_nil (by decide) hne
  have hsmall := ntohl_lt_of_zeros hread hfour hnum lenNet
  have hle := ntohl_zeros_le hfour lenNet
  obtain ⟨hlarge, _⟩ | ⟨_, hlong, hcall⟩ | ⟨_, _, hcall⟩ :=
    receiveMessage_cases ⟨stream, arrived⟩ hne
      (show ntohl (lenNet.fill (firstBytes stream arrived)) = _ from rfl)
  · omega
  · rw [hcall] at hresult ⊢
    have hpos : ntohl (lenNet.fill (firstBytes stream arrived)) ≠ 0 := by
      intro hzero
      rw [hzero, List.take_zero] at hresult
      exact hresult rfl
    have hwhole : (firstBytes stream arrived).length = 4 := by omega
    have hfill : lenNet.fill (firstBytes stream arrived) = ⟨firstBytes stream arrived, hwhole⟩ :=
      CArray.ext (CArray.toList_fill hwhole)
    refine ⟨⟨firstBytes stream arrived, hwhole⟩, _, ?_, ?_, rfl⟩
    · rw [List.append_assoc, List.take_append_drop, firstBytes_append]
    · rw [List.length_take, Nat.min_eq_left hlong, hfill]
  · exact absurd hcall hresult

theorem framed_iff : Framed stream arrived ↔ PrefixOk stream arrived :=
  ⟨Framed.prefixOk, PrefixOk.framed⟩

end

/-! ## When framing is faithful -/

/-- The messages arrive if and only if each has a length that fits an `int` and no prefix is cut.
The results are messages of the stream if and only if the number in the first prefix fits an `int`
and a prefix that is cut is followed by too few bytes for any message. -/
theorem framing_iff (messages : List (List UInt8)) (stream : List UInt8) (arrived : Nat → ℕ+) :
    (Delivered messages arrived ↔
      (∀ msg ∈ messages, msg.length < 2 ^ 31) ∧ WholePrefixes messages arrived) ∧
    (Framed stream arrived ↔ PrefixOk stream arrived) :=
  ⟨delivered_iff messages arrived, framed_iff⟩

/-- A read that finds the first byte of a prefix loses the message of two bytes after it; three
bytes of a prefix make the fourth one a message; a length of `2 ^ 31` is returned as NULs. -/
theorem framing_fails :
    ¬ Delivered [[104, 105]] (fun _ => 1) ∧
    receiveAll (fun _ => zeros) 1 ⟨[0, 0, 0, 2, 104, 105], fun _ => 1⟩ = [[]] ∧
    ¬ Framed [0, 0, 0, 1] (fun _ => 3) ∧ ¬ Framed [128, 0, 0, 0] (fun _ => 4) := by
  refine ⟨?_, ?_, ?_, ?_⟩
  · rw [delivered_iff]
    intro ⟨_, hwhole, _⟩
    exact absurd hwhole (by decide)
  · have hlen : ntohl ((zeros : CArray UInt8 4).fill
        ((⟨[0, 0, 0, 2, 104, 105], fun _ => 1⟩ : Socket).read 4).1) = 0 := by decide
    obtain ⟨hlarge, _⟩ | ⟨_, _, hcall⟩ | ⟨_, hshort, _⟩ :=
      receiveMessage_cases _ (List.cons_ne_nil _ _) hlen
    · exact absurd hlarge (by decide)
    · rw [receiveAll, hcall]
      rfl
    · exact absurd hshort (Nat.not_lt_zero _)
  · rw [framed_iff]
    intro ⟨_, hpart⟩
    exact absurd hpart (by decide)
  · rw [framed_iff]
    intro ⟨hnum, _⟩
    exact absurd hnum (by decide)

end AcademiaCr.Systems
