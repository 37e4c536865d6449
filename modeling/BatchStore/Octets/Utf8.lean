import BatchStore.Octets

/-!
# Reading UTF-8

`decode?` reads an octet string as text or names the first octets that rule it
out; `decodeLossy` puts U+FFFD in their place and goes on behind them. Both walk
over the string with `next`, which takes one character off the front.

Ill-formed octets are grouped as Unicode recommends: the longest initial part of
a well-formed character is one group, and an octet that starts no character is a
group of its own.
-/

namespace BatchStore.Octets

/-- Why a string of octets is not UTF-8. -/
inductive Utf8Fault where
  /-- An octet that no character begins with. -/
  | startByte
  /-- A character that is broken off by an octet that cannot go on with it. -/
  | continuationByte
  /-- A character that is broken off by the end of the string. -/
  | endOfData
deriving DecidableEq, Repr

/-- What stands at the front of a string of octets. -/
inductive Utf8Front where
  /-- A well-formed character of `width` octets. -/
  | char (c : Char) (width : Nat)
  /-- An ill-formed group of `width` octets. -/
  | bad (fault : Utf8Fault) (width : Nat)
deriving Repr

/-- Octets that continue a character carry six bits. -/
def isContinuation (b : UInt8) : Bool := 128 ≤ b && b ≤ 191

/-- The second octets that may follow a lead octet: the bounds shut out overlong
forms, surrogates and numbers past U+10FFFF. -/
def isSecond (lead b : UInt8) : Bool :=
  if lead == 0xE0 then 160 ≤ b && b ≤ 191
  else if lead == 0xED then 128 ≤ b && b ≤ 159
  else if lead == 0xF0 then 144 ≤ b && b ≤ 191
  else if lead == 0xF4 then 128 ≤ b && b ≤ 143
  else isContinuation b

/-- The six bits of a continuation. -/
def low6 (b : UInt8) : Nat := b.toNat % 64

/-- Reads a character of two octets. -/
def front2 (b : UInt8) : Octets → Utf8Front
  | [] => .bad .endOfData 1
  | c :: _ =>
    if isContinuation c then .char (Char.ofNat (b.toNat % 32 * 64 + low6 c)) 2
    else .bad .continuationByte 1

/-- Reads a character of three octets. -/
def front3 (b : UInt8) : Octets → Utf8Front
  | [] => .bad .endOfData 1
  | c :: rest =>
    if isSecond b c then
      match rest with
      | [] => .bad .endOfData 2
      | d :: _ =>
        if isContinuation d then
          .char (Char.ofNat ((b.toNat % 16 * 64 + low6 c) * 64 + low6 d)) 3
        else .bad .continuationByte 2
    else .bad .continuationByte 1

/-- Reads a character of four octets. -/
def front4 (b : UInt8) : Octets → Utf8Front
  | [] => .bad .endOfData 1
  | c :: rest =>
    if isSecond b c then
      match rest with
      | [] => .bad .endOfData 2
      | d :: rest =>
        if isContinuation d then
          match rest with
          | [] => .bad .endOfData 3
          | e :: _ =>
            if isContinuation e then
              .char (Char.ofNat (((b.toNat % 8 * 64 + low6 c) * 64 + low6 d) * 64 + low6 e)) 4
            else .bad .continuationByte 3
        else .bad .continuationByte 2
    else .bad .continuationByte 1

/-- The character or ill-formed group at the front of `b :: rest`. -/
def next (b : UInt8) (rest : Octets) : Utf8Front :=
  if b < 0x80 then .char (Char.ofNat b.toNat) 1
  else if b < 0xC2 then .bad .startByte 1
  else if b < 0xE0 then front2 b rest
  else if b < 0xF0 then front3 b rest
  else if b < 0xF5 then front4 b rest
  else .bad .startByte 1

/-- Where and why a string of octets fails to be text. -/
structure Utf8Error where
  /-- All the octets that were to be read. -/
  source : Octets
  /-- The place of the first ill-formed octet. -/
  position : Nat
  /-- The count of octets in the ill-formed group. -/
  width : Nat
  fault : Utf8Fault
deriving DecidableEq, Repr

/-- Reads the octets from `position` on; `chars` is what was read before, backwards. A
failure is the place, the width and the reason. -/
def decodeFrom (position : Nat) (chars : List Char) :
    Octets → Except (Nat × Nat × Utf8Fault) (List Char)
  | [] => .ok chars.reverse
  | b :: rest =>
    match next b rest with
    | .char c width => decodeFrom (position + width) (c :: chars) (rest.drop (width - 1))
    | .bad fault width => .error (position, width, fault)
termination_by w => w.length
decreasing_by simp only [List.length_drop, List.length_cons]; omega

/-- The text that the octets stand for, or the first place where they stand for none. -/
def decode? (w : Octets) : Except Utf8Error String :=
  match decodeFrom 0 [] w with
  | .ok chars => .ok (String.ofList chars)
  | .error (position, width, fault) => .error ⟨w, position, width, fault⟩

/-- Reads on past ill-formed groups, with a replacement character for each. -/
def decodeLossyChars : Octets → List Char
  | [] => []
  | b :: rest =>
    match next b rest with
    | .char c width => c :: decodeLossyChars (rest.drop (width - 1))
    | .bad _ width => '\uFFFD' :: decodeLossyChars (rest.drop (width - 1))
termination_by w => w.length
decreasing_by all_goals simp only [List.length_drop, List.length_cons]; omega

/-- The text of the octets, U+FFFD standing for every ill-formed group. -/
def decodeLossy (w : Octets) : String := String.ofList (decodeLossyChars w)

/-- Two hexadecimal digits. -/
def hex2 (b : UInt8) : String :=
  String.ofList [Nat.digitChar (b.toNat / 16), Nat.digitChar (b.toNat % 16)]

/-- The wording of a fault. -/
def Utf8Fault.message : Utf8Fault → String
  | .startByte => "invalid start byte"
  | .continuationByte => "invalid continuation byte"
  | .endOfData => "unexpected end of data"

/-- Names the octets by place, and by value when there is only one. -/
def Utf8Error.message (e : Utf8Error) : String :=
  match (e.source.drop e.position).take e.width with
  | [b] =>
    "'utf-8' codec can't decode byte 0x" ++ hex2 b ++ " in position "
      ++ toString e.position ++ ": " ++ e.fault.message
  | _ =>
    "'utf-8' codec can't decode bytes in position " ++ toString e.position ++ "-"
      ++ toString (e.position + e.width - 1) ++ ": " ++ e.fault.message

end BatchStore.Octets
