import AgentCompiler.Object.Label

/-!
The services: routines that every image carries behind the code of its agents. Their entry points
are the first labels of every program, so they are known before any code is.
-/

namespace AgentCompiler

inductive Service
  | allocate
  /-- Copies bytes, for destination, source and length; returns the destination. -/
  | copyBytes
  /-- Fills bytes, for destination, byte and length; returns the destination. -/
  | fillBytes
  | textLength
  | textEqual
  | concat
  | formatInt
  | repeatText
  /-- One read, for descriptor, buffer and length; returns the number of bytes. -/
  | readBytes
  | readText
  | writeBytes
  | putText
  | printInt
  | printBool
  /-- Appends a message, for queue, schema number and payload. -/
  | enqueue
  /-- Moves the oldest message into a slot, for queue and slot. -/
  | dequeue
  | abort
  | exit
  deriving DecidableEq

namespace Service

def all : List Service :=
  [allocate, copyBytes, fillBytes, textLength, textEqual, concat, formatInt, repeatText, readBytes,
    readText, writeBytes, putText, printInt, printBool, enqueue, dequeue, abort, exit]

def name : Service → String
  | allocate => "rt_alloc"
  | copyBytes => "rt_memcpy"
  | fillBytes => "rt_memset"
  | textLength => "rt_strlen"
  | textEqual => "rt_streq"
  | concat => "rt_concat"
  | formatInt => "rt_fmt_int"
  | repeatText => "rt_repeat"
  | readBytes => "rt_read"
  | readText => "rt_read_str"
  | writeBytes => "rt_write"
  | putText => "rt_puts"
  | printInt => "rt_print_int"
  | printBool => "rt_print_bool"
  | enqueue => "rt_enqueue"
  | dequeue => "rt_dequeue"
  | abort => "rt_panic"
  | exit => "rt_exit"

def index : Service → Nat
  | allocate => 0
  | copyBytes => 1
  | fillBytes => 2
  | textLength => 3
  | textEqual => 4
  | concat => 5
  | formatInt => 6
  | repeatText => 7
  | readBytes => 8
  | readText => 9
  | writeBytes => 10
  | putText => 11
  | printInt => 12
  | printBool => 13
  | enqueue => 14
  | dequeue => 15
  | abort => 16
  | exit => 17

def label (s : Service) : Label := ⟨s.index⟩

def labels : LabelTable := ⟨all.map fun s => ⟨s.name, true⟩⟩

end Service

end AgentCompiler
