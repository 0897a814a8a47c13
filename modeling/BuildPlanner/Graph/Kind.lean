/-!
Kinds of modules, products and sources.
-/

namespace BuildPlanner

inductive ModuleKind
  | library
  | executable
  | test
  | codeMacro
  | plugin
deriving DecidableEq, Repr, Inhabited

namespace ModuleKind

def all : List ModuleKind := [library, executable, test, codeMacro, plugin]

def label : ModuleKind → String
  | library => "library"
  | executable => "executable"
  | test => "test"
  | codeMacro => "macro"
  | plugin => "plugin"

def ofLabel? (s : String) : Option ModuleKind := all.find? (·.label = s)

/-- Modules that run while other modules are compiled. -/
def isHostOnly : ModuleKind → Bool
  | codeMacro | plugin => true
  | library | executable | test => false

end ModuleKind

inductive ProductKind
  /-- A library whose linkage is chosen by its clients. -/
  | automaticLibrary
  | staticLibrary
  | dynamicLibrary
  | executable
  | codeMacro
  | plugin
  | test
  /-- An executable that only runs on the machine that builds. -/
  | tool
deriving DecidableEq, Repr, Inhabited

namespace ProductKind

def all : List ProductKind :=
  [automaticLibrary, staticLibrary, dynamicLibrary, executable, codeMacro, plugin, test, tool]

def label : ProductKind → String
  | automaticLibrary => "library"
  | staticLibrary => "static-library"
  | dynamicLibrary => "dynamic-library"
  | executable => "executable"
  | codeMacro => "macro"
  | plugin => "plugin"
  | test => "test"
  | tool => "tool"

def ofLabel? (s : String) : Option ProductKind := all.find? (·.label = s)

/-- Products that run on the machine that builds. -/
def isHostOnly : ProductKind → Bool
  | codeMacro | plugin | tool => true
  | automaticLibrary | staticLibrary | dynamicLibrary | executable | test => false

/-- Automatic libraries are linked into their clients, and plugins are compiled as modules. -/
def hasBinary : ProductKind → Bool
  | automaticLibrary | plugin => false
  | staticLibrary | dynamicLibrary | executable | codeMacro | test | tool => true

end ProductKind

inductive SourceKind
  | swift
  | c
  | cxx
  | objc
  | assembly
deriving DecidableEq, Repr

namespace SourceKind

def all : List SourceKind := [swift, c, cxx, objc, assembly]

def label : SourceKind → String
  | swift => "swift"
  | c => "c"
  | cxx => "cxx"
  | objc => "objc"
  | assembly => "asm"

def ofLabel? (s : String) : Option SourceKind := all.find? (·.label = s)

end SourceKind

structure SourceSet where
  swift : Bool := false
  c : Bool := false
  cxx : Bool := false
  objc : Bool := false
  assembly : Bool := false
deriving DecidableEq, Repr, Inhabited

namespace SourceSet

def contains (s : SourceSet) : SourceKind → Bool
  | .swift => s.swift
  | .c => s.c
  | .cxx => s.cxx
  | .objc => s.objc
  | .assembly => s.assembly

def insert (s : SourceSet) : SourceKind → SourceSet
  | .swift => { s with swift := true }
  | .c => { s with c := true }
  | .cxx => { s with cxx := true }
  | .objc => { s with objc := true }
  | .assembly => { s with assembly := true }

def ofList (ks : List SourceKind) : SourceSet := ks.foldl insert {}

def toList (s : SourceSet) : List SourceKind := SourceKind.all.filter s.contains

def isEmpty (s : SourceSet) : Bool := s.toList.isEmpty

/-- Whether renaming the module renames every symbol of it, which holds for Swift sources. -/
def isSubstitutable (s : SourceSet) : Bool := s.toList.all (· = .swift)

end SourceSet

end BuildPlanner
