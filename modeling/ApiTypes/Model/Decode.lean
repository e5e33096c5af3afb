/-
# Reading the parts of a description

Each record of a description is laid out here with its fields in their order; a field that a
description leaves out has the value of the empty record.

* `Decode.spec`, `Decode.pathItem`, … read the records.
-/
import ApiTypes.Decoder
import ApiTypes.Model.Basic

namespace ApiTypes.Decode

open Decoder

/-! ## 1. References and schemas -/

/-- The layout of a reference. -/
def refLayout : Layout RefObject where
  name := "Reference"
  start := {}
  fields := [
    .needed "$ref" text fun x r => { r with target := x },
    .of "summary" (optional text) fun x r => { r with summary := x },
    .of "description" (optional text) fun x r => { r with description := x }]

/-- A part or a reference to one; what reads as a reference is one. -/
def orRef {α : Type} (decode : Decoder α) : Decoder (OrRef α) := fun v =>
  match refLayout.decode v with
  | .ok r => .ok (.ref r)
  | .error _ =>
    match decode v with
    | .ok a => .ok (.item a)
    | .error _ => .error .neitherRefNorItem

/-- A schema; every value is one. -/
def schema : Decoder Schema := fun v => .ok (Schema.ofJson v)

/-! ## 2. Payloads -/

/-- A payload. -/
def mediaType : Decoder MediaType := Layout.decode {
  name := "MediaType"
  start := {}
  fields := [
    .of "schema" (optional schema) fun x m => { m with schema := x },
    .of "example" (optional value) fun x m => { m with sample := x }] }

/-- Payloads by media type. -/
def content : Decoder Content := named mediaType

/-- The place of a parameter. -/
def place : Decoder Place :=
  variant (Place.all.map fun p => (p.name, p)) (Place.all.map Place.name)

/-- A parameter. -/
def parameter : Decoder Parameter := Layout.decode {
  name := "Parameter"
  start := {}
  fields := [
    .needed "name" text fun x p => { p with name := x },
    .needed "in" place fun x p => { p with place := x },
    .of "description" (optional text) fun x p => { p with description := x },
    .of "required" flag fun x p => { p with required := x },
    .of "deprecated" flag fun x p => { p with deprecated := x },
    .of "schema" (optional schema) fun x p => { p with schema := x },
    .of "content" (optional content) fun x p => { p with content := x },
    .of "example" (optional value) fun x p => { p with sample := x }] }

/-- The body of a request. -/
def requestBody : Decoder RequestBody := Layout.decode {
  name := "RequestBody"
  start := {}
  fields := [
    .of "description" (optional text) fun x b => { b with description := x },
    .of "content" content fun x b => { b with content := x },
    .of "required" flag fun x b => { b with required := x }] }

/-- A header. -/
def header : Decoder Header := Layout.decode {
  name := "Header"
  start := {}
  fields := [
    .of "description" (optional text) fun x h => { h with description := x },
    .of "required" flag fun x h => { h with required := x },
    .of "deprecated" flag fun x h => { h with deprecated := x },
    .of "schema" (optional schema) fun x h => { h with schema := x },
    .of "content" (optional content) fun x h => { h with content := x }] }

/-- A response. -/
def response : Decoder Response := Layout.decode {
  name := "Response"
  start := {}
  fields := [
    .of "description" (optional text) fun x r => { r with description := x },
    .of "headers" (named (orRef header)) fun x r => { r with headers := x },
    .of "content" (optional content) fun x r => { r with content := x }] }

/-! ## 3. Operations and paths -/

/-- An operation. -/
def operation : Decoder Operation := Layout.decode {
  name := "Operation"
  start := {}
  fields := [
    .of "operationId" (optional text) fun x o => { o with operationId := x },
    .of "summary" (optional text) fun x o => { o with summary := x },
    .of "description" (optional text) fun x o => { o with description := x },
    .of "deprecated" flag fun x o => { o with deprecated := x },
    .of "tags" (list text) fun x o => { o with tags := x },
    .of "parameters" (list (orRef parameter)) fun x o => { o with parameters := x },
    .of "requestBody" (optional (orRef requestBody)) fun x o => { o with requestBody := x },
    .of "responses" (entries (orRef response)) fun x o => { o with responses := x }] }

/-- A path. -/
def pathItem : Decoder PathItem := Layout.decode {
  name := "PathItem"
  start := {}
  fields := [
    .of "$ref" (optional text) fun x p => { p with reference := x },
    .of "summary" (optional text) fun x p => { p with summary := x },
    .of "description" (optional text) fun x p => { p with description := x },
    .of "get" (optional operation) fun x p => { p with get := x },
    .of "put" (optional operation) fun x p => { p with put := x },
    .of "post" (optional operation) fun x p => { p with post := x },
    .of "delete" (optional operation) fun x p => { p with delete := x },
    .of "options" (optional operation) fun x p => { p with options := x },
    .of "head" (optional operation) fun x p => { p with head := x },
    .of "patch" (optional operation) fun x p => { p with patch := x },
    .of "trace" (optional operation) fun x p => { p with trace := x },
    .of "parameters" (list (orRef parameter)) fun x p => { p with parameters := x }] }

/-! ## 4. Descriptions -/

/-- The components. -/
def components : Decoder Components := Layout.decode {
  name := "Components"
  start := {}
  fields := [
    .of "schemas" (optional (named schema)) fun x c => { c with schemas := x },
    .of "responses" (optional (named (orRef response))) fun x c => { c with responses := x },
    .of "parameters" (optional (named (orRef parameter))) fun x c => { c with parameters := x },
    .of "requestBodies" (optional (named (orRef requestBody)))
      fun x c => { c with requestBodies := x },
    .of "headers" (optional (named (orRef header))) fun x c => { c with headers := x },
    .of "pathItems" (optional (named (orRef pathItem))) fun x c => { c with pathItems := x }] }

/-- What a description says about itself. -/
def info : Decoder Info := Layout.decode {
  name := "Info"
  start := {}
  fields := [
    .of "title" (optional text) fun x i => { i with title := x },
    .of "version" (optional text) fun x i => { i with version := x },
    .of "description" (optional text) fun x i => { i with description := x }] }

/-- A tag. -/
def tag : Decoder Tag := Layout.decode {
  name := "Tag"
  start := {}
  fields := [
    .needed "name" text fun x t => { t with name := x },
    .of "description" (optional text) fun x t => { t with description := x }] }

/-- A whole description. -/
def spec : Decoder Spec := Layout.decode {
  name := "OpenApiDocument"
  start := {}
  fields := [
    .needed "openapi" text fun x s => { s with openapi := x },
    .of "$self" (optional text) fun x s => { s with self := x },
    .of "info" info fun x s => { s with info := x },
    .of "paths" (optional (entries pathItem)) fun x s => { s with paths := x },
    .of "webhooks" (optional (entries (orRef pathItem))) fun x s => { s with webhooks := x },
    .of "components" (optional components) fun x s => { s with components := x },
    .of "tags" (list tag) fun x s => { s with tags := x }] }

end ApiTypes.Decode
