/-!
# Topics of diagnostics

Diagnostics come under five topics, for each of which there is a debug flag. `Levels` says for each topic how detailed
they may be; zero means silent.

* `Levels.get_set_self`, `Levels.get_set_of_ne`: setting a level changes this level and no other.
* `Levels.get_all`: after setting all levels, each topic has the given one.
-/

namespace SecureStream

/-- A part of the library that reports what it does. -/
inductive Topic where
  /-- Frames and their headers. -/
  | codec
  /-- Steps of a handshake. -/
  | handshake
  /-- Records of application data. -/
  | record
  /-- The end of a channel. -/
  | close
  /-- Engines and their buffers. -/
  | engine
  deriving DecidableEq, Repr

namespace Topic

/-- All topics, in the order in which they are listed. -/
def all : List Topic := [codec, handshake, record, close, engine]

def name : Topic → String
  | codec => "codec"
  | handshake => "handshake"
  | record => "record"
  | close => "close"
  | engine => "engine"

/-- The topic of a given name. -/
def ofName? (name : String) : Option Topic := all.find? (·.name == name)

theorem mem_all (t : Topic) : t ∈ all := by cases t <;> decide

theorem ofName?_name (t : Topic) : ofName? t.name = some t := by cases t <;> decide

end Topic

/-- How detailed the diagnostics of each topic may be. -/
structure Levels where
  codec : UInt8
  handshake : UInt8
  record : UInt8
  close : UInt8
  engine : UInt8
  deriving DecidableEq, Repr

namespace Levels

/-- The same level for every topic. -/
def all (level : UInt8) : Levels := ⟨level, level, level, level, level⟩

/-- No diagnostics at all. -/
def silent : Levels := all 0

def get (l : Levels) : Topic → UInt8
  | .codec => l.codec
  | .handshake => l.handshake
  | .record => l.record
  | .close => l.close
  | .engine => l.engine

def set (l : Levels) (topic : Topic) (level : UInt8) : Levels :=
  match topic with
  | .codec => { l with codec := level }
  | .handshake => { l with handshake := level }
  | .record => { l with record := level }
  | .close => { l with close := level }
  | .engine => { l with engine := level }

@[simp] theorem get_all (level : UInt8) (t : Topic) : (all level).get t = level := by cases t <;> rfl

@[simp] theorem get_set_self (l : Levels) (t : Topic) (level : UInt8) : (l.set t level).get t = level := by
  cases t <;> rfl

theorem get_set_of_ne (l : Levels) {t u : Topic} (level : UInt8) (h : u ≠ t) :
    (l.set t level).get u = l.get u := by
  cases t <;> cases u <;> first | rfl | exact absurd rfl h

theorem ext_get {l m : Levels} (h : ∀ t, l.get t = m.get t) : l = m := by
  cases l
  cases m
  simp only [Levels.mk.injEq]
  exact ⟨h .codec, h .handshake, h .record, h .close, h .engine⟩

end Levels

end SecureStream
