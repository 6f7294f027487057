import Mathlib.Data.Nat.Bitwise
import Mathlib.Data.List.Basic

/-!
# Protocol constants of filexfer version 3

Packet types, status codes, the `pflags` bits of an open request and the flag bits of an
attribute structure, each with its wire number.
-/

namespace GantrySftp

/-- The only filexfer revision spoken. -/
def protocolVersion : ℤ := 3

/-- Packet type byte, the first byte of every frame body. -/
inductive PacketType
  | init | version | open_ | close | read | write | lstat | fstat | setstat | fsetstat
  | opendir | readdir | remove | mkdir | rmdir | realpath | stat | rename | readlink | symlink
  | status | handle | data | name | attrs | extended | extendedReply
  deriving DecidableEq, Repr

namespace PacketType

/-- The wire number of a packet type. -/
def value : PacketType → ℕ
  | init => 1
  | version => 2
  | open_ => 3
  | close => 4
  | read => 5
  | write => 6
  | lstat => 7
  | fstat => 8
  | setstat => 9
  | fsetstat => 10
  | opendir => 11
  | readdir => 12
  | remove => 13
  | mkdir => 14
  | rmdir => 15
  | realpath => 16
  | stat => 17
  | rename => 18
  | readlink => 19
  | symlink => 20
  | status => 101
  | handle => 102
  | data => 103
  | name => 104
  | attrs => 105
  | extended => 200
  | extendedReply => 201

/-- The spelling of a packet type in messages. -/
def label : PacketType → String
  | init => "INIT"
  | version => "VERSION"
  | open_ => "OPEN"
  | close => "CLOSE"
  | read => "READ"
  | write => "WRITE"
  | lstat => "LSTAT"
  | fstat => "FSTAT"
  | setstat => "SETSTAT"
  | fsetstat => "FSETSTAT"
  | opendir => "OPENDIR"
  | readdir => "READDIR"
  | remove => "REMOVE"
  | mkdir => "MKDIR"
  | rmdir => "RMDIR"
  | realpath => "REALPATH"
  | stat => "STAT"
  | rename => "RENAME"
  | readlink => "READLINK"
  | symlink => "SYMLINK"
  | status => "STATUS"
  | handle => "HANDLE"
  | data => "DATA"
  | name => "NAME"
  | attrs => "ATTRS"
  | extended => "EXTENDED"
  | extendedReply => "EXTENDED_REPLY"

/-- Every packet type, in increasing order of wire number. -/
def all : List PacketType :=
  [init, version, open_, close, read, write, lstat, fstat, setstat, fsetstat, opendir, readdir,
    remove, mkdir, rmdir, realpath, stat, rename, readlink, symlink, status, handle, data, name,
    attrs, extended, extendedReply]

/-- The packet type with a wire number, when version 3 defines one. -/
def ofValue (raw : ℤ) : Option PacketType :=
  all.find? fun packetType => (packetType.value : ℤ) == raw

/-- Distinct packet types have distinct wire numbers. -/
theorem ofValue_value (packetType : PacketType) :
    ofValue (packetType.value : ℤ) = some packetType := by
  cases packetType <;> rfl

/-- Every packet type fits its byte. -/
theorem value_lt (packetType : PacketType) : packetType.value < 256 := by
  cases packetType <;> decide

end PacketType

/-- Codes carried by a status packet. -/
inductive StatusCode
  | ok | eof | noSuchFile | permissionDenied | failure | badMessage | noConnection
  | connectionLost | opUnsupported
  deriving DecidableEq, Repr

namespace StatusCode

/-- The wire number of a status code. -/
def value : StatusCode → ℕ
  | ok => 0
  | eof => 1
  | noSuchFile => 2
  | permissionDenied => 3
  | failure => 4
  | badMessage => 5
  | noConnection => 6
  | connectionLost => 7
  | opUnsupported => 8

/-- Every status code version 3 defines. -/
def all : List StatusCode :=
  [ok, eof, noSuchFile, permissionDenied, failure, badMessage, noConnection, connectionLost,
    opUnsupported]

/-- The status code with a wire number, when version 3 defines one. -/
def ofValue (raw : ℤ) : Option StatusCode :=
  all.find? fun code => (code.value : ℤ) == raw

/-- Distinct status codes have distinct wire numbers. -/
theorem ofValue_value (code : StatusCode) : ofValue (code.value : ℤ) = some code := by
  cases code <;> rfl

/-- Every status code fits the word it is written in. -/
theorem value_lt (code : StatusCode) : code.value < 2 ^ 32 := by
  cases code <;> decide

end StatusCode

/-- The bits of a word outside a mask. -/
def andNot (word mask : ℕ) : ℕ := word ^^^ (word &&& mask)

/-- Every `pflags` bit version 3 defines: READ, WRITE, APPEND, CREAT, TRUNC and EXCL. -/
def definedPflags : ℕ := 0x3F

/-- A combination of the `pflags` bits version 3 defines. -/
structure OpenFlag where
  bits : ℕ
  defined : bits &&& definedPflags = bits
  deriving DecidableEq

namespace OpenFlag

/-- The defined bits of a wire value. -/
def mask (wire : ℕ) : OpenFlag where
  bits := wire &&& definedPflags
  defined := by rw [Nat.and_assoc, Nat.and_self]

/-- Masking a value with no other bit leaves it alone. -/
theorem mask_bits (flags : OpenFlag) : mask flags.bits = flags := by
  obtain ⟨bits, hdefined⟩ := flags
  simp only [mask, hdefined]

/-- Combinations of the defined bits fit the word they are written in. -/
theorem bits_lt (flags : OpenFlag) : flags.bits < 2 ^ 32 := by
  have hle : flags.bits &&& definedPflags ≤ definedPflags := Nat.and_le_right
  rw [flags.defined, definedPflags] at hle
  omega

end OpenFlag

/-- Which fields are present in an attribute structure. `uidgid` and `acmodtime` govern two
fields each. -/
inductive AttrFlag
  | size | uidgid | permissions | acmodtime | extended
  deriving DecidableEq, Repr

/-- The bit of an attribute flag. -/
def AttrFlag.value : AttrFlag → ℕ
  | size => 0x00000001
  | uidgid => 0x00000002
  | permissions => 0x00000004
  | acmodtime => 0x00000008
  | extended => 0x80000000

end GantrySftp
