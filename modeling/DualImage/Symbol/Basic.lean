import DualImage.Symbol.Flags
import DualImage.Text.Basic
import DualImage.Text.Hexadecimal

/-! Symbols of archives and linked binaries, and what the linker sees in them. -/
namespace DualImage

/-- An entry of a symbol table with its provenance: the package it was built from and the suffix
of the artifact it was read from. -/
structure Symbol where
  name : String
  code : String
  sectionName : String
  size : Int
  address : Int
  package : Text
  suffix : Text
  deriving DecidableEq, Repr, Inhabited

namespace Symbol

def archiveSuffix : Text := ".a"

def binarySuffix : Text := ".elf"

/-- The provenance of everything read from a linked binary. -/
def binaryPackage : Text := "elf"

def commonSection : String := "*COM*"

def flags (s : Symbol) : Flags := Flags.ofCode s.code

def isLocal (s : Symbol) : Bool := s.flags.isLocal

def isWeak (s : Symbol) : Bool := s.flags.weak

/-- Global or unique binding that is not local too. A weak symbol may be global. -/
def isGlobal (s : Symbol) : Bool := (s.flags.isGlobal || s.flags.isUnique) && !s.flags.isLocal

/-- A tentative definition. -/
def isCommon (s : Symbol) : Bool := s.sectionName == commonSection

def isFunction (s : Symbol) : Bool := s.flags.function

def isGlobalData (s : Symbol) : Bool := (s.isGlobal || s.isCommon) && !s.isFunction

def isDebug (s : Symbol) : Bool := s.flags.debug

def isFile (s : Symbol) : Bool := s.flags.file

def inSection (s : Symbol) (start : String) : Bool := start.toList.isPrefixOf s.sectionName.toList

def fromArchive (s : Symbol) : Bool := s.suffix == archiveSuffix

/-- Sections that take memory in the running program. -/
def memorySections : List String := [".text", ".data", ".bss", "*COM*", ".rodata"]

def inMemory (s : Symbol) : Bool := memorySections.any s.inSection

def sizeText (s : Symbol) : String := Text.Hexadecimal.written 0 s.size

def describe (s : Symbol) : Text :=
  s.name ++ "(" ++ s.suffix ++ ") (" ++ s.code ++ ") -- (" ++ s.sectionName ++ ") size " ++
    s.sizeText ++ " at " ++ Text.Hexadecimal.written 10 s.address ++ " from " ++ s.package

end Symbol
end DualImage
