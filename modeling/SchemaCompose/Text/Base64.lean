import SchemaCompose.Text.Basic

/-!
# Base64

Four characters carry three octets.  Characters that carry nothing are passed over;
the text may end inside a group of four only behind enough marks of padding.
-/

namespace SchemaCompose.Text

/-- The characters that carry six bits each, in the order of what they carry. -/
def base64Alphabet : List Char :=
  "ABCDEFGHIJKLMNOPQRSTUVWXYZabcdefghijklmnopqrstuvwxyz0123456789+/".toList

/-- The octets of a text, where `group` holds what the characters of the unfinished
group carry and `marks` counts the marks of padding in a row. -/
def base64From : (group : List Nat) → (marks : Nat) → Text → Option (List UInt8)
  | group, _, [] => if group = [] then some [] else none
  | group, marks, c :: rest =>
    if c = '=' then
      if 2 ≤ group.length && 4 ≤ group.length + marks + 1 then some []
      else base64From group (if 2 ≤ group.length then marks + 1 else marks) rest
    else
      match base64Alphabet.idxOf? c with
      | none => base64From group marks rest
      | some bits =>
        match group with
        | [] => base64From [bits] 0 rest
        | [first] =>
          (base64From [first, bits] 0 rest).map
            (UInt8.ofNat (first * 4 + bits / 16) :: ·)
        | [first, second] =>
          (base64From [first, second, bits] 0 rest).map
            (UInt8.ofNat (second % 16 * 16 + bits / 4) :: ·)
        | _ :: _ :: third :: _ =>
          (base64From [] 0 rest).map (UInt8.ofNat (third % 4 * 64 + bits) :: ·)

/-- The octets that a text carries. -/
def base64? (text : Text) : Option (List UInt8) :=
  base64From [] 0 text

end SchemaCompose.Text
