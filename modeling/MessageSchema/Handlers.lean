import MessageSchema.Classification
import MessageSchema.Noted
import MessageSchema.Text.Ident
import MessageSchema.Text.SnakeCase

/-!
The handler module of a realtime client, in Rust. It has one optional slot for each message that the
server sends, a trait by which a handler takes its slot, and a dispatcher that decodes a frame and
calls the handler of its message. A message whose name is no identifier gets no slot.
-/

namespace MessageSchema

set_option autoImplicit false

namespace Handlers

structure Options where
  /-- The module that holds the message models. -/
  modelsPath : String := "crate::realtime::models"
  /-- The enumeration of message names in that module. -/
  enumName : String := "Messages"
  /-- Handlers return futures, and the dispatcher awaits them. -/
  asynchronous : Bool := false
  deriving DecidableEq

/-- The messages with a slot. -/
def handled (c : Classification) : List String := c.subscribe.filter Text.isIdentifier

def skipped (c : Classification) : List String :=
  c.subscribe.filter fun name => !Text.isIdentifier name

def skippedLog (c : Classification) : List Notice := (skipped c).map .skippedHandler

theorem is_identifier_of_mem_handled {c : Classification} {name : String}
    (member : name ∈ handled c) : Text.isIdentifier name = true := by
  simp only [handled, List.mem_filter] at member
  exact member.2

def slot (name : String) : String := "handle_" ++ Text.toSnakeCase name

namespace Options

variable (o : Options)

def handlerType (name : String) : String :=
  name ++ (if o.asynchronous then "Handler" else "Callback")

def returned : String :=
  if o.asynchronous then " -> Pin<Box<dyn Future<Output = ()>>>" else ""

def uses : List String :=
  ["use anyhow::Result;"] ++
    (if o.asynchronous then ["use futures::Future;"] else []) ++
    ["use log::debug;", "use serde_json::from_slice;"] ++
    (if o.asynchronous then ["use std::pin::Pin;"] else []) ++
    ["", "use " ++ o.modelsPath ++ ";"]

def typeLine (name : String) : String :=
  "pub type " ++ o.handlerType name ++ " = fn(models::" ++ name ++ ")" ++ o.returned ++ ";"

def attachLine (name : String) : String := "impl Attach for " ++ o.handlerType name ++ " \x7b"

/-- A handler type and how a handler of that type takes its slot. -/
def handlerLines (name : String) : List String := [
  "",
  o.typeLine name,
  o.attachLine name,
  "    fn attach(&self, handlers: &mut EventHandlers) \x7b",
  "        handlers." ++ slot name ++ " = Some(*self);",
  "    \x7d",
  "\x7d"]

def slotLine (name : String) : String :=
  "    pub " ++ slot name ++ ": Option<" ++ o.handlerType name ++ ">,"

def signature : String :=
  if o.asynchronous then
    "    pub async fn handle_event(&self, event: models::" ++ o.enumName ++
      ", data: Vec<u8>) -> Result<()> \x7b"
  else
    "    pub fn handle_event(&self, event: models::" ++ o.enumName ++
      ", data: &[u8]) -> Result<()> \x7b"

def armLine (name : String) : String :=
  "            models::" ++ o.enumName ++ "::" ++ name ++ " => \x7b"

def armLines (name : String) : List String := [
  o.armLine name,
  "                if let Some(handler) = self." ++ slot name ++ " \x7b",
  "                    let message: models::" ++ name ++ " = from_slice(&data)?;",
  "                    handler(message)" ++ (if o.asynchronous then ".await" else "") ++ ";",
  "                \x7d else \x7b",
  "                    debug!(\"No handler attached for " ++ name ++ "\");",
  "                \x7d",
  "            \x7d"]

def fallbackLine : String := "            _ => debug!(\"No handler slot for event\"),"

/-- The body of the dispatcher. Without slots there is nothing to tell apart, and the last arm is
needed only when the enumeration has names without a slot. -/
def dispatchLines (handled skipped : List String) : List String :=
  if handled.isEmpty then ["        let _ = (event, data);"]
  else
    ["        match event \x7b"] ++ handled.flatMap o.armLines ++
      (if skipped.isEmpty then [] else [fallbackLine]) ++ ["        \x7d"]

def lines (c : Classification) : List String :=
  ["//! This module is auto-generated - do not edit!", ""] ++ o.uses ++
    ["", "pub trait Attach \x7b", "    fn attach(&self, handlers: &mut EventHandlers);", "\x7d"] ++
    (handled c).flatMap o.handlerLines ++
    ["", "#[derive(Clone, Copy, Default)]", "pub struct EventHandlers \x7b"] ++
    (handled c).map o.slotLine ++
    ["\x7d", "", "impl EventHandlers \x7b", "    pub fn new() -> Self \x7b",
      "        Self::default()", "    \x7d", "", o.signature] ++
    o.dispatchLines (handled c) (skipped c) ++
    ["        Ok(())", "    \x7d", "\x7d"]

end Options

def render (o : Options) (c : Classification) : String :=
  String.join ((o.lines c).map (· ++ "\n"))

end Handlers

end MessageSchema
